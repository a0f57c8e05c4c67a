import Cascade.Html.Compact
import Cascade.Page.Token
/-!
HTML written small for templates. The text for a token can have spaces in it, so an attribute value
with a token in it keeps its quotes.
-/

namespace Cascade.Html

/-- White space between the attributes of a tag. -/
def isGap (b : UInt8) : Bool := b = 0x20 || b = 0x09 || b = 0x0D || b = 0x0A

def isQuote (b : UInt8) : Bool := b = Tag.doubleQuote || b = Tag.singleQuote

/-- Quotes the value of an attribute that is not quoted and has a token in it. The attribute comes
with the gap before it, and holds no other gap. -/
def quoteAttribute : Bytes → Bytes
  | [] => []
  | gap :: bytes =>
    let (name, rest) := Bytes.spanOf
      (fun b => !(isGap b || isQuote b || b = Tag.slash || b = Tag.greaterThan || b = Tag.equals))
      bytes
    match rest with
    | [] => gap :: bytes
    | b :: rest =>
      let (value, behind) := Bytes.spanOf
        (fun b => !(isGap b || isQuote b || b = Tag.greaterThan || b = 0x60)) rest
      let ends := behind = [] || behind.head? = some Tag.greaterThan
      if isGap gap && name ≠ [] && b = Tag.equals && ends && Token.occursIn value then
        gap :: name ++ b :: Tag.doubleQuote :: value ++ Tag.doubleQuote :: behind
      else gap :: bytes

/-- Quotes the values with tokens in the tag at the start, if there is one. No other tag begins in
`bytes`. -/
def quoteTag : Bytes → Bytes
  | a :: b :: rest =>
    let (inside, behind) := Bytes.spanOf (· ≠ Tag.greaterThan) (b :: rest)
    if a = Tag.lessThan && Bytes.isLetter b && behind ≠ [] && inside.text?.isSome then
      (Bytes.cutBefore isGap (a :: inside ++ behind.take 1)).flatMap quoteAttribute ++ behind.drop 1
    else a :: b :: rest
  | bytes => bytes

/-- Quotes all attribute values with tokens in them. -/
def quoteTokens (html : Bytes) : Bytes :=
  (Bytes.cutBefore (· = Tag.lessThan) html).flatMap quoteTag

/-- HTML for a template, written small if `small`. -/
def minify (small : Bool) (html : Bytes) : Bytes :=
  if small then quoteTokens (compact html) else html

end Cascade.Html
