import Updater.Utils.Text

/-! The message in the misc partition, and the options that are put into its `update` field
and taken out of it. -/

set_option autoImplicit false

namespace Updater.Utils

def maxCommandSize : Nat := 32

def maxUpdateSize : Nat := 768

/-- `char buffer[128]`. -/
def headBufferSize : Nat := 128

def nul : Char := '\x00'

/-- `struct UpdateMessage`; the fields behind `update` are kept in one. -/
structure UpdateMessage where
  command : List Char
  status : List Char
  update : List Char
  rest : List Char
  command_size : command.length = maxCommandSize
  update_size : update.length = maxUpdateSize

/-- A character array that holds a text, with zeros behind it. -/
def fillField (size : Nat) (text : List Char) : List Char :=
  text.take size ++ List.replicate (size - text.length) nul

theorem length_fillField (size : Nat) (text : List Char) : (fillField size text).length = size := by
  rw [fillField, List.length_append, List.length_take, List.length_replicate]
  omega

namespace UpdateMessage

def withCommand (msg : UpdateMessage) (text : List Char) : UpdateMessage :=
  { msg with
    command := fillField maxCommandSize text
    command_size := length_fillField maxCommandSize text }

def withUpdate (msg : UpdateMessage) (text : List Char) : UpdateMessage :=
  { msg with
    update := fillField maxUpdateSize text
    update_size := length_fillField maxUpdateSize text }

end UpdateMessage

/-- The text at a `char *`. -/
def cString (chars : List Char) : List Char :=
  chars.takeWhile (· ≠ nul)

/-- `std::string::find`. -/
def find (pattern : List Char) : List Char → Option Nat
  | [] => if pattern = [] then some 0 else none
  | char :: rest =>
      if pattern.isPrefixOf (char :: rest) then some 0 else (find pattern rest).map (· + 1)

/-- `strncat_s` to the text of an array. -/
def strncatS (size : Nat) (dest src : List Char) : Option (List Char) :=
  if dest.length + src.length < size then some (dest ++ src) else none

/-- `snprintf_s` to an array; a text that is cut is an error. -/
def snprintfS (size : Nat) (text : List Char) : Option (List Char) :=
  if text.length < size then some text else none

/-- `strncpy_s` of the whole of a text. -/
def strncpyS (size : Nat) (text : List Char) : Option (List Char) :=
  if text.length < size then some text else none

/-- The conversion of `%d` and `%lld`. -/
def formatInt : Int → List Char
  | .ofNat value => Nat.toDigits 10 value
  | .negSucc value => '-' :: Nat.toDigits 10 (value + 1)

/-- `ParseParams(0, nullptr)`: `commandFile` is what is read of `COMMAND_FILE`, if it is
there. -/
def parseParams (commandFile : Option UpdateMessage) (misc : UpdateMessage) : List (List Char) :=
  let boot := if misc.update.head? = some nul then commandFile.getD misc else misc
  splitChars ['\n'] (cString (boot.update.take (maxUpdateSize - 1)))

/-- `TrimUpdateMode`: the name of the option that an argument gives. -/
def trimUpdateMode (mode : List Char) : List Char :=
  let optPos := (find ['='] mode).getD mode.length
  let prefixPos := ((find ['-', '-'] mode).map (· + 2)).getD 0
  if mode = [] then []
  else if optPos < prefixPos then mode
  else (mode.drop prefixPos).take (optPos - prefixPos)

/-- The loop over the arguments that do not contain the option, a line for each. -/
def appendArgs (headInfo : List Char) : List Char → List (List Char) → Option (List Char)
  | update, [] => some update
  | update, arg :: args =>
      if find headInfo arg = none then do
        let update ← strncatS maxUpdateSize update arg
        let update ← strncatS maxUpdateSize update ['\n']
        appendArgs headInfo update args
      else appendArgs headInfo update args

/-- The option with its value. -/
def headArg (headInfo : List Char) : Option Int → List Char
  | none => '-' :: '-' :: cString headInfo
  | some message => '-' :: '-' :: cString headInfo ++ '=' :: formatInt message

/-- The value that `SetMessageToMisc` writes. -/
def miscValue (headInfo : List Char) (message : Int) : Option Int :=
  if headInfo = "sdcard_update".toList then none else some message

section

variable (commandFile : Option UpdateMessage)

/-- `SetMessageToMisc`: the message that is stored afterwards. -/
def setMessageToMisc (miscCmd : List Char) (message : Int) (headInfo : List Char)
    (misc : UpdateMessage) : UpdateMessage :=
  if headInfo = [] then misc
  else
    let msg := do
      let command ← strncpyS maxCommandSize (cString miscCmd)
      let update ← appendArgs headInfo [] (parseParams commandFile misc)
      let buffer ← snprintfS headBufferSize (headArg headInfo (miscValue headInfo message))
      let update ← strncatS maxUpdateSize update buffer
      pure ((misc.withCommand command).withUpdate update)
    msg.getD misc

/-- `UpdateInfoInMisc`. -/
def updateInfoInMisc (headInfo : List Char) (message : Option Int) (isRemove : Bool)
    (misc : UpdateMessage) : UpdateMessage :=
  if headInfo = [] then misc
  else
    let msg := do
      let update ← appendArgs headInfo [] (parseParams commandFile misc)
      let buffer ←
        if isRemove then some [] else snprintfS headBufferSize (headArg headInfo message)
      let update ← strncatS maxUpdateSize update buffer
      pure (misc.withUpdate update)
    msg.getD misc

def addUpdateInfoToMisc (headInfo : List Char) (message : Option Int) (misc : UpdateMessage) :
    UpdateMessage :=
  updateInfoInMisc commandFile headInfo message false misc

def removeUpdateInfoFromMisc (headInfo : List Char) (misc : UpdateMessage) : UpdateMessage :=
  updateInfoInMisc commandFile headInfo none true misc

end

end Updater.Utils
