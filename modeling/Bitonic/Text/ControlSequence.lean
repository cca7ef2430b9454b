/-!
# Control sequences

Sequences of characters that a terminal obeys instead of showing them: an escape character and a
final character, with parameters or a string between them.  A text for an output that is no terminal
is left without them and without control characters other than line breaks and tabs; one that has
none is left as it is.
-/

namespace Bitonic.Text

def emphasize (text : String) : String := "\x1b[1m" ++ text ++ "\x1b[0m"

/-- How far the control sequence goes that a character is met in. -/
inductive SequenceState where
  /-- No sequence is open. -/
  | plain
  /-- After the escape character. -/
  | escape
  /-- After intermediate characters behind the escape character. -/
  | escapeIntermediate
  /-- Among the parameters of a function. -/
  | function
  /-- At the start of a device string. -/
  | deviceStart
  /-- Among the parameters of a device string. -/
  | deviceParameter
  /-- After intermediate characters of a device string. -/
  | deviceIntermediate
  /-- In a string, up to the string terminator. -/
  | string
  /-- In a command to the operating system, up to the bell. -/
  | command
  deriving DecidableEq

/-- White space that is carried out and not only shown. -/
def isLayout (c : Char) : Bool := c == '\t' || c == '\n' || c == '\x0c' || c == '\r'

def isAscii (c : Char) : Bool := c.toNat < 0x80

def isControl (c : Char) : Bool := c.toNat < 0x20 || c == '\x7f'

def stringTerminator : UInt8 := 0x9c

namespace SequenceState

def afterGraphic (state : SequenceState) (c : Char) : SequenceState :=
  match state with
  | plain => plain
  | escape =>
    if c ≤ '/' then escapeIntermediate
    else match c with
      | '[' => function
      | ']' => command
      | 'P' => deviceStart
      | 'X' | '^' | '_' => string
      | _ => plain
  | escapeIntermediate => if c ≤ '/' then escapeIntermediate else plain
  | function => if c ≤ '?' then function else plain
  | deviceStart =>
    if c ≤ '/' then deviceIntermediate
    else if c ≤ '?' then deviceParameter
    else string
  | deviceParameter =>
    if c ≤ '/' then deviceIntermediate
    else if c ≤ ';' then deviceParameter
    else string
  | deviceIntermediate => if c ≤ '/' then deviceIntermediate else string
  | string => string
  | command => command

/-- The state after a character.  An escape character opens a sequence and the cancel characters end
one, wherever they are met. -/
def after (state : SequenceState) (c : Char) : SequenceState :=
  if c == '\x1b' then escape
  else if c == '\x18' || c == '\x1a' then plain
  else if !isAscii c then
    if state == string && c.toString.toUTF8.toList.contains stringTerminator then plain else state
  else if isControl c then
    if state == command && c == '\x07' then plain else state
  else state.afterGraphic c

def shows (state : SequenceState) (c : Char) : Bool :=
  match state with
  | plain => isLayout c || !isControl c
  | escape | escapeIntermediate | function => isLayout c
  | deviceStart | deviceParameter | deviceIntermediate | string | command => false

end SequenceState

/-- The characters that belong to the text, where `showing` tells whether the one before did.
Layout inside a sequence suspends it: what follows is shown up to the next control character, where
the sequence goes on. -/
def shownFrom (state : SequenceState) (showing : Bool) : List Char → List Char
  | [] => []
  | c :: rest =>
    if showing && SequenceState.plain.shows c then
      c :: shownFrom (if isAscii c then state else .plain) true rest
    else if !showing && state.shows c then c :: shownFrom (state.after c) true rest
    else shownFrom (state.after c) false rest

def withoutControls (text : String) : String :=
  String.ofList (shownFrom .plain false text.toList)

end Bitonic.Text
