import Cascade.Page.Render
import Cascade.Proofs.Page.Content
import Cascade.Proofs.Page.Spelling
import Mathlib.Data.List.Find
/-!
What a page reads from the tree beside content files: the layout files on the way to it, and the
files of its own directory that have an at sign in front of their name.
-/

namespace Cascade

open Path (IsName join)

namespace PageConfig

/-- The settings in the layout file of a directory, if they can be read. -/
def layout? (t : FileTree) (dir : String) : Option PageConfig :=
  match loadLayout t dir with
  | .ok layout => layout
  | .error _ => none

/-- An empty configuration adds nothing. -/
@[simp] theorem merge_empty (c : PageConfig) : c.merge {} = c := by
  show PageConfig.mk c.opts c.vars c.metadata (c.styles ++ []) (c.scripts ++ []) c.blocks c.isHome = c
  rw [List.append_nil, List.append_nil]

theorem isName_of_mem_layoutFiles : ∀ f ∈ layoutFiles, IsName f := by
  decide

theorem extension?_join (dir : String) {n : String} (hn : IsName n) :
    Path.extension? (join dir n) = (Path.splitExtension n).2 := by
  simp [Path.extension?, Path.fileName?_join dir hn]

/-- The name of a layout file alone tells its format. -/
theorem ofLayoutFile_join (dir dir' : String) {n : String} (hn : IsName n) (content : Bytes) :
    ofLayoutFile (join dir n) content = ofLayoutFile (join dir' n) content := by
  simp only [ofLayoutFile, extension?_join _ hn]

theorem ofLayoutFile_of_mem {f : String} (hf : f ∈ layoutFiles) (dir : String) (content : Bytes) :
    ofLayoutFile (join dir f) content = ofLayoutFile f content := by
  have hrelative : ∀ f ∈ layoutFiles, join "" f = f := by decide
  rw [ofLayoutFile_join dir "" (isName_of_mem_layoutFiles f hf), hrelative f hf]

/-- The layout file that counts is the first that can be read. -/
theorem loadLayout_eq (t : FileTree) (dir : String) :
    loadLayout t dir =
      match layoutFiles.find? fun f => (t.read (join dir f)).toOption.isSome with
      | none => .ok none
      | some f =>
        match (t.read (join dir f)).toOption with
        | none => .ok none
        | some content =>
          match ofLayoutFile (join dir f) content with
          | .ok c => .ok (some c)
          | .error fault => .error (.layout (join dir f) fault.message) := by
  have hfind : (layoutFiles.map (join dir)).find? t.isFile =
      (layoutFiles.find? fun f => (t.read (join dir f)).toOption.isSome).map (join dir) := by
    rw [List.find?_map]
    refine congrArg (Option.map (join dir)) ?_
    refine congrArg (fun p => List.find? p layoutFiles) ?_
    funext f
    exact FileTree.isFile_eq_read
  rw [loadLayout, hfind]
  cases hf : layoutFiles.find? fun f => (t.read (join dir f)).toOption.isSome with
  | none => rfl
  | some f =>
    have hsome := List.find?_some hf
    simp only [Option.map_some]
    cases hr : t.read (join dir f) with
    | error e => simp [hr, Except.toOption] at hsome
    | ok content => rfl

theorem loadLayout_error {t : FileTree} {dir : String} {e : BuildError}
    (h : loadLayout t dir = .error e) :
    ∃ f ∈ layoutFiles, ∃ cause, e = .layout (join dir f) cause := by
  rw [loadLayout_eq] at h
  split at h
  · simp at h
  · next f hf =>
    split at h
    · simp at h
    · split at h
      · simp at h
      · obtain rfl := Except.error.inj h
        exact ⟨f, List.mem_of_find?_eq_some hf, _, rfl⟩

/-- A directory in which no layout file stands has no layout. -/
theorem layout?_eq_none {t : FileTree} {dir : String} {L : Location} (h : t.Opens dir L)
    (hnone : ∀ f ∈ layoutFiles, t.entry? (L ++ [f]) = none) : layout? t dir = none := by
  have hfind : (layoutFiles.find? fun f => (t.read (join dir f)).toOption.isSome) = none := by
    rw [List.find?_eq_none]
    intro f hf
    rw [h.read_join_of_none (isName_of_mem_layoutFiles f hf) (hnone f hf)]
    simp
  rw [layout?, loadLayout_eq, hfind]

theorem layout?_congr {t t' : FileTree} {dir dir' : String}
    (h : ∀ f ∈ layoutFiles, (t.read (join dir f)).toOption = (t'.read (join dir' f)).toOption) :
    layout? t dir = layout? t' dir' := by
  have hfind : (layoutFiles.find? fun f => (t.read (join dir f)).toOption.isSome) =
      layoutFiles.find? fun f => (t'.read (join dir' f)).toOption.isSome := by
    refine List.find?_congr fun f hf => ?_
    rw [h f hf]
  rw [layout?, layout?, loadLayout_eq, loadLayout_eq, hfind]
  cases hf : layoutFiles.find? fun f => (t'.read (join dir' f)).toOption.isSome with
  | none => rfl
  | some f =>
    have hmem := List.mem_of_find?_eq_some hf
    simp only [h f hmem]
    cases (t'.read (join dir' f)).toOption with
    | none => rfl
    | some content =>
      simp only [ofLayoutFile_join dir dir' (isName_of_mem_layoutFiles f hmem)]
      cases ofLayoutFile (join dir' f) content <;> rfl

end PageConfig

/-! The names in block tokens. -/

namespace Token

theorem read?_of_mem_parts {α : Type} {kind : Kind α} {bytes : Bytes} {value : α}
    (h : .token value ∈ kind.parts bytes) :
    ∃ front behind, kind.read? front = some (value, behind) := by
  fun_induction Kind.parts kind bytes with
  | case1 => simp at h
  | case2 b rest value' behind hread _ ih =>
    rcases List.mem_cons.mp h with he | h
    · obtain rfl := Part.token.inj he
      exact ⟨_, _, hread⟩
    · exact ih h
  | case3 b rest _ ih =>
    rcases List.mem_cons.mp h with he | h
    · exact absurd he (by simp)
    · exact ih h

theorem isNameByte_of_readBlock? {bytes name behind : Bytes}
    (h : readBlock? bytes = some (name, behind)) : ∀ b ∈ name, isNameByte b = true := by
  unfold readBlock? at h
  split at h
  · split at h
    · split at h
      · next name' c rest' hn =>
        split at h
        · obtain ⟨rfl, -⟩ := Prod.mk.injEq .. ▸ Option.some.inj h
          obtain ⟨word, hword, rfl, -⟩ := word_of_readName? hn
          exact hword.isNameByte
        · simp at h
      · simp at h
    · simp at h
  · simp at h

def Part.token? {α : Type} : Part α → Option α
  | .byte _ => none
  | .token value => some value

@[simp] theorem Part.token?_byte {α : Type} (b : UInt8) : (byte b : Part α).token? = none := rfl

@[simp] theorem Part.token?_token {α : Type} (value : α) : (token value).token? = some value := rfl

/-- The parts of a template that has at most `fuel` bytes, so that they can be computed. -/
def Kind.partsWithin {α : Type} (kind : Kind α) : Nat → Bytes → List (Part α)
  | 0, _ => []
  | _, [] => []
  | fuel + 1, b :: rest =>
    match kind.read? (b :: rest) with
    | some (value, behind) => .token value :: partsWithin kind fuel behind
    | none => .byte b :: partsWithin kind fuel rest

theorem Kind.partsWithin_eq {α : Type} (kind : Kind α) {fuel : Nat} {bytes : Bytes}
    (h : bytes.length ≤ fuel) : kind.partsWithin fuel bytes = kind.parts bytes := by
  induction fuel generalizing bytes with
  | zero =>
    obtain rfl : bytes = [] := by simpa using h
    rw [partsWithin, Kind.parts]
  | succ fuel ih =>
    cases bytes with
    | nil => rw [partsWithin, Kind.parts]; simp
    | cons b rest =>
      simp only [List.length_cons] at h
      rw [partsWithin, Kind.parts]
      split
      · next value behind hread =>
        have hshort := kind.shorter hread
        simp only [List.length_cons] at hshort
        rw [ih (by omega)]
        split
        · next hread' =>
          rw [hread] at hread'
          simp_all
        · next hread' => simp_all
      · next hread =>
        rw [ih (by omega)]
        split
        · next hread' => simp_all
        · rfl

/-- A template is written by what stands for the tokens in it. -/
theorem Kind.substitute_congr {α : Type} {kind : Kind α} {f g : α → Bytes} {template : Bytes}
    (h : ∀ value, .token value ∈ kind.parts template → f value = g value) :
    kind.substitute f template = kind.substitute g template := by
  refine List.flatMap_congr ?_
  intro part hpart
  cases part with
  | byte b => rfl
  | token value => exact h value hpart

theorem readVariable?_of_ne {b : UInt8} (h : b ≠ openBrace) (rest : Bytes) :
    readVariable? (b :: rest) = none := by
  simp [readVariable?, h]

/-- Where no brace is opened there is no variable. -/
theorem parts_of_no_brace {bytes : Bytes} (h : openBrace ∉ bytes) :
    variableTokens.parts bytes = bytes.map .byte := by
  induction bytes with
  | nil => rw [Kind.parts]; rfl
  | cons b rest ih =>
    simp only [List.mem_cons, not_or] at h
    have hread : variableTokens.read? (b :: rest) = none := readVariable?_of_ne (Ne.symm h.1) rest
    rw [Kind.parts_of_none hread, ih h.2, List.map_cons]

theorem substitute_of_no_brace (f : Variable → Bytes) {bytes : Bytes} (h : openBrace ∉ bytes) :
    variableTokens.substitute f bytes = bytes := by
  rw [Kind.substitute, parts_of_no_brace h]
  induction bytes with
  | nil => rfl
  | cons b rest ih =>
    simp only [List.mem_cons, not_or] at h
    rw [List.map_cons, List.flatMap_cons, ih h.2]
    rfl

end Token

theorem slash_not_mem_lossy {name : Bytes} (h : ∀ b ∈ name, Token.isNameByte b = true) :
    '/' ∉ (Bytes.lossy name).toList := by
  by_cases hne : name = []
  · rw [hne, show ([] : Bytes) = utf8 "" from rfl, Bytes.lossy_utf8]
    decide
  · obtain ⟨word, hword, rfl⟩ := Token.exists_word hne h
    rw [Bytes.lossy_utf8]
    exact hword.slash_not_mem

/-! Overrides. -/

/-- The files with an at sign in front of their names are the same in two directories. -/
def SameOverrides (t : FileTree) (dir : String) (t' : FileTree) (dir' : String) : Prop :=
  ∀ n, IsName n → n.toList.head? = some '@' →
    (t.read (join dir n)).toOption = (t'.read (join dir' n)).toOption

theorem isName_override {name : String} (hname : '/' ∉ name.toList) (markup : Markup) :
    IsName ("@" ++ name ++ markup.suffix) ∧
      ("@" ++ name ++ markup.suffix).toList.head? = some '@' := by
  have hlist : ("@" ++ name ++ markup.suffix).toList =
      '@' :: (name.toList ++ markup.suffix.toList) := by
    simp [String.toList_append]
  have hsuffix : '/' ∉ markup.suffix.toList := by
    cases markup <;> decide
  refine ⟨⟨?_, ?_, ?_, ?_⟩, by simp [hlist]⟩
  · intro he
    simp [he] at hlist
  · intro he
    simp [he] at hlist
  · intro he
    simp [he] at hlist
  · simp [hlist, hname, hsuffix]

theorem loadOverride_congr {t t' : FileTree} {dir dir' name : String} (hname : '/' ∉ name.toList)
    (h : SameOverrides t dir t' dir') (small : Bool) :
    loadOverride t dir name small = loadOverride t' dir' name small := by
  have hread : ∀ markup : Markup,
      (t.read (join dir ("@" ++ name ++ markup.suffix))).toOption =
        (t'.read (join dir' ("@" ++ name ++ markup.suffix))).toOption := by
    intro markup
    obtain ⟨hn, hhead⟩ := isName_override hname markup
    exact h _ hn hhead
  have hhtml := hread .html
  have hmarkdown := hread .markdown
  unfold loadOverride
  simp only
  revert hhtml hmarkdown
  generalize t.read (join dir ("@" ++ name ++ Markup.html.suffix)) = a
  generalize t.read (join dir ("@" ++ name ++ Markup.markdown.suffix)) = b
  generalize t'.read (join dir' ("@" ++ name ++ Markup.html.suffix)) = a'
  generalize t'.read (join dir' ("@" ++ name ++ Markup.markdown.suffix)) = b'
  intro hhtml hmarkdown
  cases a <;> cases a' <;> cases b <;> cases b' <;> simp_all [Except.toOption]

theorem loadOverride_eq_none {t : FileTree} {dir name : String} {small : Bool}
    (h : ∀ markup : Markup,
      (t.read (join dir ("@" ++ name ++ markup.suffix))).toOption = none) :
    loadOverride t dir name small = none := by
  have hhtml := h .html
  have hmarkdown := h .markdown
  unfold loadOverride
  simp only
  generalize t.read (join dir ("@" ++ name ++ Markup.html.suffix)) = a at hhtml ⊢
  generalize t.read (join dir ("@" ++ name ++ Markup.markdown.suffix)) = b at hmarkdown ⊢
  cases a <;> cases b <;> simp_all [Except.toOption]

theorem loadOverride_html {t : FileTree} {dir name : String} {small : Bool} {c : Bytes}
    (h : (t.read (join dir ("@" ++ name ++ ".html"))).toOption = some c) :
    loadOverride t dir name small = some (Html.minify small c) := by
  unfold loadOverride
  simp only [Markup.suffix]
  cases hr : t.read (join dir ("@" ++ name ++ ".html")) with
  | error e => simp [hr, Except.toOption] at h
  | ok content =>
    obtain rfl : content = c := by simpa [hr, Except.toOption] using h
    rfl

/-- The page of a configuration before its blocks are filled in. -/
def PageConfig.unfilled (c : PageConfig) (skeleton : Bytes) (small : Bool) : Bytes :=
  let head := c.headBytes small (c.shownMetadata skeleton)
  let layout := (c.blocks.get? layoutBlock).getD []
  replaceFirst bodyMarker layout (insertBefore headMarker head (c.substituteVariables skeleton))

theorem PageConfig.render_eq (c : PageConfig) (t : FileTree) (dir : String) (skeleton : Bytes)
    (small : Bool) :
    c.render t dir skeleton small = c.substituteVariables
      (Token.blockTokens.substitute (c.blockText t dir small) (c.unfilled skeleton small)) := rfl

/-- Of the tree, a page shows the overrides of its own directory and nothing else. -/
theorem PageConfig.render_congr {t t' : FileTree} {dir dir' : String}
    (h : SameOverrides t dir t' dir') (c : PageConfig) (skeleton : Bytes) (small : Bool) :
    c.render t dir skeleton small = c.render t' dir' skeleton small := by
  rw [render_eq, render_eq]
  refine congrArg c.substituteVariables (Token.Kind.substitute_congr fun name hname => ?_)
  obtain ⟨front, behind, hread⟩ := Token.read?_of_mem_parts hname
  have hslash := slash_not_mem_lossy (Token.isNameByte_of_readBlock? hread)
  simp only [PageConfig.blockText, loadOverride_congr hslash h]

end Cascade
