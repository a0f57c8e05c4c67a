import Cascade.Proofs.Site.Footprint
import Cascade.Proofs.Watch.Changes
/-!
Changes stay inside the output directory. A build makes the directories on the way to the output and
changes what is inside it; the output of what is gone is looked for inside it too, unless the path of the
change leads above the source by two dots behind it.
-/

namespace Cascade

open Path (IsName join descend components place)

/-- A place on the way to where the path `out` leads. -/
def OnWay (out : String) (M : Location) : Prop :=
  ∃ p, Path.IsAbove p out ∧ M = place p

/-- The tree `u` comes from `t` by changes inside the output directory, and by directories made on the
way there. -/
structure Confined (out : String) (t u : FileTree) : Prop where
  cwd : u.cwd = t.cwd
  wellFormed : t.WellFormed → u.WellFormed
  linkFree : t.LinkFree → u.LinkFree
  outside : ∀ M, ¬place out <+: M → u.entry? M = t.entry? M ∨
    OnWay out M ∧ t.entry? M = none ∧ u.entry? M = some .directory

namespace Confined

variable {out : String} {t u v : FileTree}

theorem refl (out : String) (t : FileTree) : Confined out t t := ⟨rfl, id, id, fun _ _ => .inl rfl⟩

theorem trans (h : Confined out t u) (h' : Confined out u v) : Confined out t v where
  cwd := h'.cwd.trans h.cwd
  wellFormed := fun ht => h'.wellFormed (h.wellFormed ht)
  linkFree := fun hl => h'.linkFree (h.linkFree hl)
  outside := by
    intro M hM
    rcases h.outside M hM with he | ⟨hway, hnone, hdir⟩
    · rw [← he]
      exact h'.outside M hM
    · rcases h'.outside M hM with he | ⟨-, hnone', -⟩
      · exact .inr ⟨hway, hnone, he.trans hdir⟩
      · simp [hdir] at hnone'

theorem of_changed {D P : Location → Prop} (h : FileTree.Changed D P t u) (hl : t.LinkFree)
    (hD : ∀ M, D M → place out <+: M ∨ OnWay out M) (hP : ∀ M, P M → place out <+: M) :
    Confined out t u where
  cwd := h.cwd
  wellFormed := h.wellFormed
  linkFree := h.linkFree
  outside := by
    intro M hM
    rcases h.entry_or hl fun hPM => hM (hP M hPM) with he | ⟨hnone, hdir, hDM⟩
    · exact .inl he
    · exact .inr ⟨(hD M hDM).resolve_left hM, hnone, hdir⟩

theorem of_shrunk {P : Location → Prop} (h : FileTree.Shrunk P t u)
    (hP : ∀ M, P M → place out <+: M) : Confined out t u where
  cwd := h.cwd
  wellFormed := h.wellFormed
  linkFree := h.linkFree
  outside := fun M hM => .inl ((h.entry M).resolve_right fun hgone => hM (hP M hgone.1))

end Confined

/-! Builds. -/

/-- What is above a path below `out` is below `out` itself, or on the way there. -/
theorem place_or_onWay {out : String} {ns : List String} (hns : ∀ n ∈ ns, IsName n) {p : String}
    (hp : components p <+: components (descend out ns)) :
    place out <+: place p ∨ OnWay out (place p) := by
  rw [Path.components_descend out hns] at hp
  rcases List.prefix_or_prefix_of_prefix hp (List.prefix_append _ _) with hle | ⟨back, hback⟩
  · by_cases hsame : components p = components out
    · exact .inl (by rw [place, place, hsame])
    · exact .inr ⟨p, ⟨hle, hsame⟩, rfl⟩
  · rw [← hback, List.prefix_append_right_inj, List.prefix_iff_eq_take, ← List.map_take] at hp
    rw [Path.place_of_components (hback.symm.trans (by rw [hp]))]
    exact .inl (List.prefix_append _ _)

/-- A build of any scope is confined, also where it fails. -/
theorem confined_build (s : Site) {t : FileTree} (ht : t.WellFormed) (hl : t.LinkFree)
    (scope : Option String) : Confined (s.absolute t.cwdPath).out t (s.build t scope).1 := by
  refine .of_changed (s.build_changed ht hl scope) hl ?_ ?_
  · rintro M ⟨p, hp | ⟨ns, hsource, -, hp⟩, rfl⟩
    · have hnames : ∀ n ∈ ([] : List String), Path.IsName n := by simp
      exact place_or_onWay hnames hp
    · exact place_or_onWay (Site.names_spot hsource.isName).1 hp.1
  · rintro M ⟨ns, hsource, -, hM⟩
    obtain ⟨hpage, hgzip⟩ := Site.names_spot (s := s) (t := t) hsource.isName
    rcases hM with rfl | rfl
    · rw [Path.place_descend _ hpage]
      exact List.prefix_append _ _
    · rw [Path.place_descend _ hgzip]
      exact List.prefix_append _ _

/-! Removals. -/

/-- A change that takes away output for a path that leads above the source by two dots behind it. -/
def Change.Climbs (src : String) : Change → Prop
  | .removal path => hasContentExtension path = false ∧
      ∃ rel ∈ Path.stripPrefix path src, Path.climbs 0 (components rel) = true
  | _ => False

instance (src : String) (change : Change) : Decidable (change.Climbs src) :=
  match change with
  | .removal _ => inferInstanceAs (Decidable (_ ∧ _))
  | .file _ | .directory _ => inferInstanceAs (Decidable False)

section Removals

variable {src out : String} {t : FileTree}

theorem confined_removeFile {path : String} (habs : Path.isAbsolute path = true)
    (hplace : place out <+: place path) (hl : t.LinkFree) (ht : t.WellFormed) :
    Confined out t (t.removeFile path).1 :=
  .of_shrunk (FileTree.removeFile_shrunk hl ht habs) fun _ hM => hM ▸ hplace

theorem Session.removeOutput_fst (t : FileTree) (mirror : String) :
    (removeOutput t mirror).1 =
      (((if t.isDir mirror then t.removeDirAll mirror else t.removeFile mirror).1.removeFile
        (mirror ++ ".html")).1.removeFile (mirror ++ ".html" ++ ".gz")).1 := rfl

/-- The output of what is gone is taken away inside the output directory. -/
theorem confined_removeOutput (hl : t.LinkFree) (ht : t.WellFormed)
    (hsrc : Path.isAbsolute src = true) (hout : Path.isAbsolute out = true) {path mirror : String}
    (hmirror : mirror? path src out = some mirror)
    (hclimb : ¬∃ rel ∈ Path.stripPrefix path src, Path.climbs 0 (components rel) = true) :
    Confined out t (Session.removeOutput t mirror).1 := by
  rw [mirror?] at hmirror
  split at hmirror
  case h_2 => simp at hmirror
  case h_1 rel hrel =>
    split at hmirror
    · simp at hmirror
    next hne =>
    obtain rfl := Option.some.inj hmirror
    have hstay : Path.climbs 0 (components rel) = false := by
      rw [← Bool.not_eq_true]
      exact fun hc => hclimb ⟨rel, hrel, hc⟩
    obtain ⟨hdir, hbehind⟩ := Path.place_join_rest hsrc hout hrel hne hstay
    have habs := Path.isAbsolute_join_left hout rel
    have hpage := hbehind ".html" (by decide) (by decide)
    have hgzip := hbehind (".html" ++ ".gz") (by decide) (by decide)
    rw [← String.append_assoc] at hgzip
    have hfirst : Confined out t (if t.isDir (join out rel) then t.removeDirAll (join out rel)
        else t.removeFile (join out rel)).1 := by
      split
      · exact .of_shrunk (FileTree.removeDirAll_shrunk hl ht habs) fun _ => hdir.trans
      · exact confined_removeFile habs hdir hl ht
    rw [Session.removeOutput_fst]
    have hsecond := hfirst.trans (confined_removeFile (Path.isAbsolute_append habs _) hpage
      (hfirst.linkFree hl) (hfirst.wellFormed ht))
    exact hsecond.trans (confined_removeFile
      (Path.isAbsolute_append (Path.isAbsolute_append habs _) _) hgzip
      (hsecond.linkFree hl) (hsecond.wellFormed ht))

end Removals

namespace Session

variable {s : Session} {t : FileTree}

theorem handle_tree (s : Session) (t : FileTree) (now : Nat) (change : Change) :
    (s.handle t now change).2.tree =
      if (s.gate.accept now).1 then (s.react t change).tree else t := by
  simp only [handle]
  split <;> rfl

theorem handleAll_cons (s : Session) (t : FileTree) (now : Nat) (change : Change)
    (changes : List (Nat × Change)) : (s.handleAll t ((now, change) :: changes)).2 =
      (s.handle t now change).2 ::
        ((s.handle t now change).1.handleAll (s.handle t now change).2.tree changes).2 := rfl

/-- What comes of a change is confined, unless its path climbs. -/
theorem confined_react (ht : t.WellFormed) (hl : t.LinkFree)
    (habs : s.site.absolute t.cwdPath = s.site) {change : Change}
    (hclimb : ¬change.Climbs s.site.src) : Confined s.site.out t (s.react t change).tree := by
  have hbuild : ∀ scope, Confined s.site.out t (s.build t scope).tree := by
    intro scope
    rw [(s.build_eq t scope).1]
    have h := confined_build s.site ht hl scope.limit?
    rwa [habs] at h
  cases change with
  | file path =>
    simp only [react, fileChanged]
    split
    · exact hbuild _
    · exact .refl _ t
  | directory path =>
    simp only [react, directoryAdded]
    split
    · exact hbuild _
    · exact .refl _ t
  | removal path =>
    simp only [react, removed]
    split
    · split
      · exact hbuild _
      · exact .refl _ t
    · next hext =>
      split
      · next mirror hmirror =>
        have hsrc : Path.isAbsolute s.site.src = true := habs ▸ Site.isAbsolute_src ht
        have hout : Path.isAbsolute s.site.out = true := habs ▸ Site.isAbsolute_out ht
        exact confined_removeOutput hl ht hsrc hout hmirror fun h =>
          hclimb ⟨by simpa using hext, h⟩
      · exact .refl _ t

/-- Whatever changes come, each at its time, what they do to the tree is done inside the output
directory, but for directories on the way there that were missing; unless a removed path climbs. -/
theorem changes_confined (ht : t.WellFormed) (hl : t.LinkFree)
    (habs : s.site.absolute t.cwdPath = s.site) {changes : List (Nat × Change)}
    (hclimb : ∀ c ∈ changes, ¬c.2.Climbs s.site.src) :
    ∀ o ∈ (s.handleAll t changes).2, ∀ M, ¬place s.site.out <+: M →
      o.tree.entry? M = t.entry? M ∨
        OnWay s.site.out M ∧ t.entry? M = none ∧ o.tree.entry? M = some .directory := by
  suffices h : ∀ o ∈ (s.handleAll t changes).2, Confined s.site.out t o.tree from
    fun o ho => (h o ho).outside
  induction changes generalizing s t with
  | nil => simp [handleAll]
  | cons c changes ih =>
    obtain ⟨now, change⟩ := c
    have hstep : Confined s.site.out t (s.handle t now change).2.tree := by
      rw [handle_tree]
      split
      · exact confined_react ht hl habs (hclimb (now, change) List.mem_cons_self)
      · exact .refl _ t
    have hsite : (s.handle t now change).1.site.absolute (s.handle t now change).2.tree.cwdPath =
        (s.handle t now change).1.site := by
      rw [handle_site, FileTree.cwdPath, hstep.cwd]
      exact habs
    intro o ho
    rw [handleAll_cons] at ho
    rcases List.mem_cons.mp ho with rfl | ho
    · exact hstep
    · exact hstep.trans (ih (hstep.wellFormed ht) (hstep.linkFree hl) hsite
        (fun c hc => hclimb c (List.mem_cons_of_mem _ hc)) o ho)

/-- A page of a site, and the directory it was made for. -/
def mirrored : FileTree :=
  { cwd := []
    entries := [(["src"], .directory), (["src", "a"], .directory), (["dist"], .directory),
      (["dist", "a"], .directory), (["dist", "a", "index.html"], .file [])] }

def mirroredSession : Session :=
  { site := { src := "/src", out := "/dist" }, gate := { threshold := quietTime } }

/-- The output of a directory goes, and comes again, and the directory itself is left alone. -/
theorem changes_confined_mirrored : ∃ o o', (mirroredSession.handleAll mirrored
      [(0, .removal "/src/b/../a"), (quietTime, .directory "/src/a")]).2 = [o, o'] ∧
    FileTree.entry? o.tree ["src", "a"] = some .directory ∧
    FileTree.entry? o'.tree ["src", "a"] = some .directory := by
  have ht : mirrored.WellFormed := FileTree.wellFormed_of_entries (by decide) (by decide) (by decide)
  have hl : mirrored.LinkFree := FileTree.linkFree_of_entries (by decide)
  have hall := changes_confined (s := mirroredSession) (t := mirrored) ht hl (by decide)
    (show ∀ c ∈ [(0, Change.removal "/src/b/../a"), (quietTime, Change.directory "/src/a")],
      ¬c.2.Climbs mirroredSession.site.src by decide)
  have hkept : ∀ {o : Outcome}, (FileTree.entry? o.tree ["src", "a"] = mirrored.entry? ["src", "a"] ∨
      OnWay mirroredSession.site.out ["src", "a"] ∧ mirrored.entry? ["src", "a"] = none ∧
        FileTree.entry? o.tree ["src", "a"] = some .directory) →
      FileTree.entry? o.tree ["src", "a"] = some .directory := fun h => h.elim id fun h => h.2.2
  rw [handleAll_cons, handleAll_cons] at hall ⊢
  refine ⟨_, _, rfl, hkept (hall _ (by simp) _ (by decide)), hkept (hall _ ?_ _ (by decide))⟩
  exact List.mem_cons_of_mem _ List.mem_cons_self

/-- Two dots lead from the mirror of the source back into the source: the directory `a` is taken away
there, not in the output. -/
theorem climbing_removal_escapes : ¬place mirroredSession.site.out <+: ["src", "a"] ∧
    mirrored.entry? ["src", "a"] = some .directory ∧
    FileTree.entry? (mirroredSession.react mirrored (.removal "/src/../src/a")).tree ["src", "a"] =
      none := by
  have hl : mirrored.LinkFree := FileTree.linkFree_of_entries (by decide)
  have ht : mirrored.WellFormed := FileTree.wellFormed_of_entries (by decide) (by decide) (by decide)
  have hopens : ∀ {t : FileTree}, t.entry? ["dist"] = some .directory →
      t.entry? ["src"] = some .directory → t.entry? ["src", "a"] = some .directory →
      t.Opens (join "/dist/../src" "a") ["src", "a"] := by
    intro t hdist hsrc ha
    refine .of_walk (by decide) (by decide) (by decide) ?_
    rw [show Path.segments (join "/dist/../src" "a") = ["", "dist", "..", "src", "a"] by decide,
      FileTree.walk_idle _ _ _ _ (by decide),
      FileTree.walk_directory _ _ _ _ (by decide) (by decide) (by decide) hdist,
      FileTree.walk_parent,
      FileTree.walk_directory _ _ _ _ (by decide) (by decide) (by decide) hsrc,
      FileTree.walk_directory _ _ _ _ (by decide) (by decide) (by decide) ha]
    simp [ha]
  have hmirrored := hopens (t := mirrored) (by decide) (by decide) (by decide)
  have hremoved := hmirrored.removeDirAll_join hl (by decide)
    (hopens (by decide) (by decide) (by decide))
  have hreact : (mirroredSession.react mirrored (.removal "/src/../src/a")).tree =
      (removeOutput mirrored (join "/dist/../src" "a")).1 := by
    have hext : hasContentExtension "/src/../src/a" = false := by decide
    have hmirror : mirror? "/src/../src/a" "/src" "/dist" = some (join "/dist/../src" "a") := by decide
    simp only [react, removed, hext, mirroredSession, hmirror, Bool.false_eq_true, if_false]
  -- The directory is gone after the first step, and the other two make nothing.
  have hgone : FileTree.entry? ((mirrored.clear ["src", "a"]).drop ["src", "a"]) ["src", "a"] =
      none := by
    decide
  have hstays : ∀ {t : FileTree} {path : String}, t.LinkFree → t.WellFormed →
      Path.isAbsolute path = true → t.entry? ["src", "a"] = none →
      FileTree.entry? (t.removeFile path).1 ["src", "a"] = none := fun hl ht habs hnone =>
    ((FileTree.removeFile_shrunk hl ht habs).entry _).elim (·.trans hnone) And.right
  have hpruned := FileTree.Pruned.drop_clear mirrored (K := ["src", "a"]) (by simp)
  have hfirst := FileTree.removeFile_shrunk (hpruned.linkFree hl) (hpruned.wellFormed ht)
    (show Path.isAbsolute (join "/dist/../src" "a" ++ ".html") = true by decide)
  refine ⟨by decide, by decide, ?_⟩
  rw [hreact, removeOutput_fst, if_pos hmirrored.isDir, hremoved]
  exact hstays (hfirst.linkFree (hpruned.linkFree hl)) (hfirst.wellFormed (hpruned.wellFormed ht))
    (by decide) (hstays (hpruned.linkFree hl) (hpruned.wellFormed ht) (by decide) hgone)

end Session

end Cascade
