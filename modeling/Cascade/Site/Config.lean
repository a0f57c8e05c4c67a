import Cascade.Toml.Document
/-!
The configuration of a whole run: how pages are built and how they are served.
-/

namespace Cascade

/-- How pages are built. -/
structure BuildOptions where
  /-- Pages are made small and may be compressed. -/
  minify : Bool := true
  /-- Pages without pages below them stand beside their directory. -/
  flatten : Bool := false
  deriving DecidableEq, Repr

/-- Where the development server listens. -/
structure ServeOptions where
  interface : String := "127.0.0.1"
  port : Nat := 3000
  deriving DecidableEq, Repr

structure SiteConfig where
  src : String := ""
  out : String := ""
  /-- Serve and watch, and do not stop after one build. -/
  live : Bool := false
  build : BuildOptions := {}
  serve : ServeOptions := {}
  deriving DecidableEq, Repr

namespace SiteConfig

open Toml (Value Item Entries)

/-- A setting as a list of named values: a table by its keys, an array by the order of `known`. An
array may be longer. -/
def fields? (known : List String) : Item → Option (List (String × Value))
  | .table _ entries => entries.mapM fun e =>
    match e.2 with
    | .value v => some (String.ofList e.1, v)
    | _ => none
  | .value (.inlineTable members) => members.mapM fun m =>
    match m.1 with
    | [key] => some (String.ofList key, m.2)
    | _ => none
  | .value (.array items) => some (known.zip items)
  | _ => none

def buildField (b : BuildOptions) (f : String × Value) : Option BuildOptions :=
  match f with
  | ("minify", .boolean v) => some { b with minify := v }
  | ("flatten", .boolean v) => some { b with flatten := v }
  | _ => none

def serveField (s : ServeOptions) (f : String × Value) : Option ServeOptions :=
  match f with
  | ("interface", .string v) => some { s with interface := String.ofList v }
  | ("port", .integer v) =>
    if 0 ≤ v && v < 65536 then some { s with port := v.toNat } else none
  | _ => none

def section? (c : SiteConfig) (e : List Char × Item) : Option SiteConfig :=
  match String.ofList e.1 with
  | "build" => do
    let fields ← fields? ["minify", "flatten"] e.2
    return { c with build := ← fields.foldlM buildField c.build }
  | "serve" => do
    let fields ← fields? ["interface", "port"] e.2
    return { c with serve := ← fields.foldlM serveField c.serve }
  | _ => none

/-- Reads a configuration file. All settings have a default, and no other settings may stand in
it. -/
def ofToml (text : List Char) : Option SiteConfig :=
  (Toml.parse? text).bind fun entries => entries.foldlM section? {}

end SiteConfig

end Cascade
