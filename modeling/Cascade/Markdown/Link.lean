import Cascade.Markdown.Event
import Cascade.Page.Token
import Cascade.Text.Attribute
/-!
Links and images as pages have them: a link that leaves the site opens a new window, and an address
with tokens is written as it stands, since the values come in later.
-/

namespace Cascade.Markdown

/-- A character in front of the colon of an address with a scheme. -/
def isSchemeChar (c : Char) : Bool := isAsciiAlphanumeric c || c = '+' || c = '-' || c = '.'

/-- An address of another site: with a scheme, or with two slashes at its start. -/
def isExternal (dest : List Char) : Bool :=
  match dest with
  | '/' :: '/' :: _ => true
  | _ =>
    let scheme := beforeAuthority dest
    !scheme.isEmpty && scheme.length < dest.length && scheme.all isSchemeChar
where
  /-- What stands in front of the first colon with two slashes. -/
  beforeAuthority : List Char → List Char
    | [] => []
    | ':' :: '/' :: '/' :: _ => []
    | c :: cs => c :: beforeAuthority cs

/-- Whether tokens of templates stand in an address. -/
def hasToken (dest : List Char) : Bool := Token.occursIn (Utf8.encode dest)

/-- An attribute with its value. -/
def attributeText (name : String) (value : List Char) : List Char :=
  ' ' :: name.toList ++ '=' :: '"' :: Attribute.escapeChars value ++ ['"']

/-- The tag that opens a link. -/
def linkTag (target : Target) : List Char :=
  "<a".toList ++ attributeText "href" target.dest
    ++ (if target.title = [] then [] else attributeText "title" target.title)
    ++ (if isExternal target.dest then attributeText "target" "_blank".toList else [])
    ++ ['>']

/-- The tag of an image. -/
def imageTag (target : Target) (alternative : List Char) : List Char :=
  "<img".toList ++ attributeText "src" target.dest ++ attributeText "alt" alternative
    ++ (if target.title = [] then [] else attributeText "title" target.title)
    ++ " />".toList

namespace Event

/-- The alternative text of the image whose content begins the list, and what is behind its end.
`depth` images are open in it. -/
def alternative (depth : Nat) : List Event → List Char × List Event
  | [] => ([], [])
  | .enter (.image _) :: es => alternative (depth + 1) es
  | .leave .image :: es =>
    match depth with
    | 0 => ([], es)
    | depth + 1 => alternative depth es
  | .text t :: es | .code t :: es =>
    let (alt, rest) := alternative depth es
    (t ++ alt, rest)
  | .softBreak :: es | .hardBreak :: es =>
    let (alt, rest) := alternative depth es
    (' ' :: alt, rest)
  | _ :: es => alternative depth es

theorem length_alternative_le (depth : Nat) (es : List Event) :
    (alternative depth es).2.length ≤ es.length := by
  fun_induction alternative depth es <;> simp_all <;> omega

/-- Writes the tags of links that leave the site, and of links and images with tokens. -/
def withLinks : List Event → List Event
  | [] => []
  | .enter (.link email target) :: es =>
    if isExternal target.dest || hasToken target.dest then
      .inlineHtml (linkTag target) :: withLinks es
    else .enter (.link email target) :: withLinks es
  | .enter (.image target) :: es =>
    if hasToken target.dest then
      have := length_alternative_le 0 es
      .inlineHtml (imageTag target (alternative 0 es).1) :: withLinks (alternative 0 es).2
    else .enter (.image target) :: withLinks es
  | e :: es => e :: withLinks es
termination_by es => es.length
decreasing_by all_goals simp_wf; try omega

end Event

end Cascade.Markdown
