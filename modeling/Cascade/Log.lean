/-!
Log lines for a terminal: a coloured module name in front of each line of a message, cut to the
width of the terminal.
-/

namespace Cascade.Log

/-- The longest front of a text that takes at most `budget` bytes. -/
def fit (budget : Nat) : List Char → List Char
  | [] => []
  | c :: cs => if c.utf8Size ≤ budget then c :: fit (budget - c.utf8Size) cs else []

/-- The lines of a text without their ends, LF or CRLF; a CR at the very end is text. -/
def lines : List Char → List (List Char)
  | [] => []
  | '\n' :: cs => [] :: lines cs
  | '\r' :: '\n' :: cs => [] :: lines cs
  | c :: cs =>
    match cs, lines cs with
    | [], _ => [[c]]
    | _, l :: ls => (c :: l) :: ls
    | _, [] => [[c]]

def escape (code : String) : List Char :=
  '\x1b' :: '[' :: code.toList

/-- The colour of a module, its name compared without regard to case. -/
def colour (name : String) : String :=
  match String.ofList (name.toList.map Char.toLower) with
  | "serve" => "1;94m"
  | "watch" => "1;92m"
  | "error" => "1;91m"
  | _ => "1;93m"

/-- Sets the colour again behind each reset that stands inside a coloured text. -/
def keepColour (style : List Char) : List Char → List Char
  | '\x1b' :: '[' :: '0' :: 'm' :: cs => escape "0m" ++ style ++ keepColour style cs
  | c :: cs => c :: keepColour style cs
  | [] => []

def label (name : String) : List Char :=
  let style := escape (colour name)
  style ++ keepColour style ('[' :: name.toList ++ [']']) ++ escape "0m"

/-- The bytes that brackets and a blank take beside the module's name. -/
def frame : Nat := 3

def writeLine (name : String) (width : Nat) (line : List Char) : List Char :=
  escape "K" ++ label name ++ [' '] ++ fit (width - (name.utf8ByteSize + frame)) line ++ ['\n']

/-- What is written for a message on a terminal of `width` columns. -/
def render (name message : String) (width : Nat) : String :=
  String.ofList ((lines message.toList).flatMap (writeLine name width))

end Cascade.Log
