import Cascade.Proofs.Page.Layers
import Cascade.Proofs.Site.Sheets
import Cascade.Watch.Session
/-!
What a change comes to. The path of a change is that of the source and names below it; the names lead
to the scope of the build that follows, or to the output that goes.
-/

namespace Cascade

open Path (IsName join descend)

theorem Scope.names_ofRelative {ns : List String} (h : ∀ n ∈ ns, IsName n) :
    Site.scopeNames (Scope.ofRelative (Path.ofSegments ns)).limit? = ns := by
  unfold Scope.ofRelative
  split
  · next hempty =>
    have hnames := Path.names_ofSegments h
    rw [hempty] at hnames
    exact hnames
  · exact Path.names_ofSegments h

section Paths

variable {src : String} (hsrc : Path.isAbsolute src = true) {ds : List String}
  (hds : ∀ n ∈ ds, IsName n)

include hsrc hds

/-- The scope of a file is its directory. -/
theorem Scope.ofFile_descend {f : String} (hf : IsName f) :
    ∃ scope, Scope.ofFile (descend src (ds ++ [f])) src = some scope ∧
      Site.scopeNames scope.limit? = ds := by
  refine ⟨_, ?_, Scope.names_ofRelative hds⟩
  rw [Scope.ofFile, Path.stripPrefix_descend hsrc (Path.isName_concat hds hf), Option.map_some,
    Path.parent?_ofSegments hds hf, Option.getD_some]

/-- The scope of a directory is the directory itself. -/
theorem Scope.ofDirectory_descend :
    ∃ scope, Scope.ofDirectory (descend src ds) src = some scope ∧
      Site.scopeNames scope.limit? = ds :=
  ⟨_, by rw [Scope.ofDirectory, Path.stripPrefix_descend hsrc hds, Option.map_some],
    Scope.names_ofRelative hds⟩

/-- A directory below the source has its output at the same names below the output directory. -/
theorem mirror?_descend (hne : ds ≠ []) (out : String) :
    mirror? (descend src ds) src out = some (descend out ds) := by
  have hrel : Path.ofSegments ds ≠ "" := by
    intro he
    have hnames := Path.names_ofSegments hds
    rw [he] at hnames
    exact hne hnames.symm
  rw [mirror?, Path.stripPrefix_descend hsrc hds]
  simp only [hrel, if_false]
  rw [Path.join_ofSegments out hds hne]

end Paths

/-! Names of files. -/

/-- The files that a build reads: layout files, content files and overrides. -/
def IsSourceFile (name : String) : Prop :=
  name ∈ PageConfig.layoutFiles ∨ (blockName? name).isSome

/-- A source file that is gone is not taken for a directory. -/
theorem hasContentExtension_join (dir : String) {f : String} (hf : IsName f)
    (hsource : IsSourceFile f) : hasContentExtension (join dir f) = true := by
  have hext : ∃ ext, (Path.splitExtension f).2 = some ext ∧ contentExtensions.contains ext = true := by
    rcases hsource with hlayout | hblock
    · have hall : ∀ g ∈ PageConfig.layoutFiles, ∃ ext, (Path.splitExtension g).2 = some ext ∧
          contentExtensions.contains ext = true := by
        intro g hg
        simp only [PageConfig.layoutFiles, List.mem_cons, List.not_mem_nil, or_false] at hg
        rcases hg with rfl | rfl | rfl
        · exact ⟨"yml", by decide, by decide⟩
        · exact ⟨"yaml", by decide, by decide⟩
        · exact ⟨"json", by decide, by decide⟩
      exact hall f hlayout
    · obtain ⟨⟨stem, m⟩, hname⟩ := Option.isSome_iff_exists.mp hblock
      obtain ⟨hne, rfl⟩ := blockName?_eq_some.mp hname
      cases m with
      | markdown =>
        refine ⟨"md", ?_, by decide⟩
        rw [show stem ++ Markup.markdown.suffix = stem ++ "." ++ "md" by rw [String.append_assoc]; rfl,
          Path.splitExtension_append hne (by decide)]
      | html =>
        refine ⟨"html", ?_, by decide⟩
        rw [show stem ++ Markup.html.suffix = stem ++ "." ++ "html" by rw [String.append_assoc]; rfl,
          Path.splitExtension_append hne (by decide)]
  obtain ⟨ext, hsplit, hcontains⟩ := hext
  rw [hasContentExtension, PageConfig.extension?_join dir hf, hsplit]
  exact hcontains

namespace Session

/-- The site of a session does not change by a change. -/
theorem handle_site (s : Session) (t : FileTree) (now : Nat) (change : Change) :
    (s.handle t now change).1.site = s.site := rfl

theorem handle_of_accept {s : Session} {now : Nat} (h : (s.gate.accept now).1 = true)
    (t : FileTree) (change : Change) : (s.handle t now change).2 = s.react t change := by
  simp [handle, h]

/-- How a change ends. -/
def Outcome.result (o : Outcome) : Except BuildError Unit :=
  match o.error with
  | some e => .error e
  | none => .ok ()

/-- A session builds what its site does. -/
theorem build_eq (s : Session) (t : FileTree) (scope : Scope) :
    (s.build t scope).tree = (s.site.build t scope.limit?).1 ∧
      (s.build t scope).result = (s.site.build t scope.limit?).2 := by
  unfold build
  split
  · next h => simp [h, Outcome.result]
  · next h => simp [h, Outcome.result]

end Session

end Cascade
