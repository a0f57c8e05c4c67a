import Cascade.Html.Minify
/-!
The two templates of a page that uses none of its own: the skeleton, which holds places for what
goes into the head and for the body, and the body.
-/

namespace Cascade

structure Templates where
  skeleton : Bytes
  /-- The layout block, where a site has none. -/
  body : Bytes
  deriving DecidableEq, Repr

namespace Templates

def skeletonLines : List String := [
  "<!DOCTYPE html>",
  "<html lang=\"\x7blang:en\x7d\">",
  "<head>",
  "  <meta charset=\"UTF-8\"/>",
  "  <meta name=\"viewport\" content=\"width=device-width, initial-scale=1.0\"/>",
  "  <meta name=\"application-name\" content=\"\x7bapptitle\x7d\"/>",
  "  <title>\x7btitle\x7d</title>",
  "  \x7b@head\x7d",
  "</head>",
  "<body>",
  "  \x7b@body\x7d",
  "</body>",
  "</html>"]

def bodyLines : List String := [
  "\x7b@header\x7d",
  "<main>",
  "  \x7b@home\x7d",
  "</main>",
  "\x7b@footer\x7d"]

def ofLines (lines : List String) : Bytes := lines.flatMap fun line => utf8 line ++ [0x0A]

/-- The templates, written small if `small`. -/
def standard (small : Bool) : Templates :=
  { skeleton := Html.minify small (ofLines skeletonLines)
    body := Html.minify small (ofLines bodyLines) }

end Templates

end Cascade
