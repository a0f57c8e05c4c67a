import Cascade.Proofs.FileTree.Ways
import Cascade.Proofs.Page.Sheet
/-!
What a page comes to, to the entry and to the error. It makes the directories on its way, or is refused
for what is on the way; and what it leaves in its two places, and its error, depend on what stands there.
Writing it again changes nothing.
-/

namespace Cascade

open Path (IsName join descend)

namespace Page

/-- What stands in the places of the two forms of a page. -/
structure Cells where
  plain : Option Entry
  gzip : Option Entry

/-- Why a file is neither written to a place where `old` stands nor removed from it. -/
def fileRefusal? (path name : String) (old : Option Entry) : Option FileError :=
  match FileTree.refusal? path name with
  | some e => some e
  | none => if old = some .directory then some .isDirectory else none

namespace Cells

/-- What a step makes of the places, and what goes wrong. -/
abbrev Result := Cells × Except BuildError Unit

variable (path name : String) (html : Bytes) (forms : Forms)

def writePlain (c : Cells) : Result :=
  match fileRefusal? path name c.plain with
  | some e => (c, .error (.write path e))
  | none => ({ c with plain := some (.file html) }, .ok ())

def writeCompressed (c : Cells) : Result :=
  match fileRefusal? (gzipPath path) (gzipName name) c.gzip with
  | some e => (c, .error (.compress (gzipPath path) e))
  | none => ({ c with gzip := some (.file (Gzip.compress html)) }, .ok ())

def removePlain (c : Cells) : Result :=
  match fileRefusal? path name c.plain with
  | some e => (c, .error (.write path e))
  | none => ({ c with plain := none }, .ok ())

/-- One step after another, up to the first that goes wrong. -/
def Result.andThen (r : Result) (step : Cells → Result) : Result :=
  match r with
  | (c, .ok ()) => step c
  | (c, .error e) => (c, .error e)

/-- A page in the forms asked for. -/
def write (c : Cells) : Result :=
  let plain := if forms.plain then c.writePlain path name html else (c, .ok ())
  let compressed := if forms.compressed then plain.andThen (writeCompressed path name html) else plain
  if forms.plain then compressed else compressed.andThen (removePlain path name)

@[simp] theorem fileRefusal?_file (c : Bytes) :
    fileRefusal? path name (some (.file c)) = FileTree.refusal? path name := by
  unfold fileRefusal?
  split <;> simp [*]

@[simp] theorem fileRefusal?_none : fileRefusal? path name none = FileTree.refusal? path name := by
  unfold fileRefusal?
  split <;> simp [*]

theorem refusal?_of_fileRefusal? {path name : String} {old : Option Entry}
    (h : fileRefusal? path name old = none) : FileTree.refusal? path name = none := by
  unfold fileRefusal? at h
  split at h
  · simp at h
  · assumption

/-- A page that is written once more is the same, and so is its error. -/
theorem write_write (c : Cells) :
    write path name html forms (write path name html forms c).1 = write path name html forms c := by
  obtain ⟨plain, compressed⟩ := forms
  cases hp : fileRefusal? path name c.plain with
  | some e =>
    cases hg : fileRefusal? (gzipPath path) (gzipName name) c.gzip with
    | some e' => 
      cases plain <;> cases compressed <;>
        simp [write, writePlain, writeCompressed, removePlain, Result.andThen, hp, hg]
    | none => 
      have hg' := refusal?_of_fileRefusal? hg
      cases plain <;> cases compressed <;>
        simp [write, writePlain, writeCompressed, removePlain, Result.andThen, hp, hg, hg']
  | none =>
    have hp' := refusal?_of_fileRefusal? hp
    cases hg : fileRefusal? (gzipPath path) (gzipName name) c.gzip with
    | some e' => 
      cases plain <;> cases compressed <;>
        simp [write, writePlain, writeCompressed, removePlain, Result.andThen, hp, hg, hp']
    | none => 
      have hg' := refusal?_of_fileRefusal? hg
      cases plain <;> cases compressed <;>
        simp [write, writePlain, writeCompressed, removePlain, Result.andThen, hp, hg, hp', hg']

end Cells

/-- A tree in which the directory of a page is open, and its two places are as they are in `c`; all else
is as in `t`. -/
structure Shows (t u : FileTree) (X : String) (K : Location) (n : String) (c : Cells) : Prop where
  opens : u.Opens X K
  wellFormed : u.WellFormed
  linkFree : u.LinkFree
  plain : u.entry? (K ++ [n]) = c.plain
  gzip : u.entry? (K ++ [gzipName n]) = c.gzip
  frame : ∀ M, M ≠ K ++ [n] → M ≠ K ++ [gzipName n] → u.entry? M = t.entry? M

namespace Shows

/-- A step of a page, on the tree and on its places. -/
def Same (t : FileTree) (X : String) (K : Location) (n : String) (w : Written) (r : Cells.Result) :
    Prop :=
  w.2 = r.2 ∧ Shows t w.1 X K n r.1

variable {t u : FileTree} {X n : String} {K : Location} {c : Cells}

theorem place_ne : K ++ [n] ≠ K ++ [gzipName n] := by
  simpa using (gzipName_ne n).symm

section Steps

variable (h : Shows t u X K n c)

include h

/-- One of the two places changes. -/
theorem change {u' : FileTree} {P : Location}
    (hc : FileTree.Changed (fun _ => False) (· = P) u u') {c' : Cells}
    (hP : P = K ++ [n] ∨ P = K ++ [gzipName n]) (hplain : u'.entry? (K ++ [n]) = c'.plain)
    (hgzip : u'.entry? (K ++ [gzipName n]) = c'.gzip) : Shows t u' X K n c' where
  opens := hc.opens h.wellFormed h.linkFree h.opens
  wellFormed := hc.wellFormed h.wellFormed
  linkFree := hc.linkFree h.linkFree
  plain := hplain
  gzip := hgzip
  frame := fun M hM hM' => by
    rw [hc.entry id, h.frame M hM hM']
    rintro rfl
    exact hP.elim hM hM'

variable (hn : IsName n) (html : Bytes)

include hn

theorem writePlain : Same t X K n (Page.writePlain u (join X n) html)
    (c.writePlain (join X n) n html) := by
  rw [Page.writePlain, h.opens.write_join h.linkFree hn, Cells.writePlain, fileRefusal?, ← h.plain]
  cases hf : FileTree.refusal? (join X n) n with
  | some e => exact ⟨rfl, h⟩
  | none =>
    by_cases hdir : u.entry? (K ++ [n]) = some .directory
    · simp only [hdir, if_true]
      exact ⟨rfl, h⟩
    · simp only [hdir, if_false]
      refine ⟨rfl, h.change (FileTree.changed_put_file hn (fun ht => h.opens.entry ht) hdir html)
        (.inl rfl) ?_ ?_⟩
      · rw [FileTree.entry?_put _ (by simp), if_pos rfl]
      · rw [FileTree.entry?_put _ (by simp), if_neg place_ne.symm, h.gzip]

theorem writeCompressed : Same t X K n (Page.writeCompressed u (join X n) html)
    (c.writeCompressed (join X n) n html) := by
  have hgz := isName_gzipName hn
  simp only [Page.writeCompressed]
  rw [gzipPath_join X hn, h.opens.write_join h.linkFree hgz, Cells.writeCompressed,
    gzipPath_join X hn, fileRefusal?, ← h.gzip]
  cases hf : FileTree.refusal? (join X (gzipName n)) (gzipName n) with
  | some e => exact ⟨rfl, h⟩
  | none =>
    by_cases hdir : u.entry? (K ++ [gzipName n]) = some .directory
    · simp only [hdir, if_true]
      exact ⟨rfl, h⟩
    · simp only [hdir, if_false]
      refine ⟨rfl, h.change (FileTree.changed_put_file hgz (fun ht => h.opens.entry ht) hdir _)
        (.inr rfl) ?_ ?_⟩
      · rw [FileTree.entry?_put _ (by simp), if_neg place_ne, h.plain]
      · rw [FileTree.entry?_put _ (by simp), if_pos rfl]

theorem removePlain : Same t X K n (Page.removePlain u (join X n)) (c.removePlain (join X n) n) := by
  rw [Page.removePlain, h.opens.removeFile_join h.linkFree hn, Cells.removePlain, fileRefusal?,
    ← h.plain]
  cases hf : FileTree.refusal? (join X n) n with
  | some e =>
    simp only [(FileTree.refusal?_ne hf).1, if_false]
    exact ⟨rfl, h⟩
  | none =>
    have hdrop : ∀ e, u.entry? (K ++ [n]) = some e → e ≠ .directory →
        Shows t (u.drop (K ++ [n])) X K n { c with plain := none } := by
      intro e hentry hne
      refine h.change (FileTree.changed_drop (by simp) (by rw [hentry]; simpa using hne)) (.inl rfl)
        ?_ ?_
      · rw [FileTree.entry?_drop _ (by simp), if_pos rfl]
      · rw [FileTree.entry?_drop _ (by simp), if_neg place_ne.symm, h.gzip]
    cases hentry : u.entry? (K ++ [n]) with
    | none => exact ⟨rfl, h.change (.refl _ _ u) (.inl rfl) hentry h.gzip⟩
    | some e =>
      cases e with
      | directory => exact ⟨rfl, h⟩
      | file b => exact ⟨rfl, hdrop _ hentry (by simp)⟩
      | link target => exact absurd hentry (h.linkFree _ _)

end Steps

theorem Same.andThen {w : Written} {r : Cells.Result} (h : Same t X K n w r)
    {step : FileTree → Written} {step' : Cells → Cells.Result}
    (hstep : ∀ {u c}, Shows t u X K n c → Same t X K n (step u) (step' c)) :
    Same t X K n (w.andThen step) (r.andThen step') := by
  obtain ⟨u, result⟩ := w
  obtain ⟨c, result'⟩ := r
  obtain ⟨rfl, hshows⟩ : result = result' ∧ Shows t u X K n c := h
  cases result with
  | ok => exact hstep hshows
  | error e => exact ⟨rfl, hshows⟩

/-- Writing a page whose directory is made is writing its two places. -/
theorem write {v : FileTree} (hn : IsName n) (html : Bytes) (forms : Forms)
    (hplaced : Same t X K n (makePlace v (join X n)) (c, .ok ())) :
    Same t X K n (Page.write v (join X n) html forms) (c.write (join X n) n html forms) := by
  obtain ⟨plain, compressed⟩ := forms
  have hplain := hplaced.andThen fun h => h.writePlain hn html
  have hcompress {w r} (h : Same t X K n w r) :=
    h.andThen fun h => h.writeCompressed hn html
  have hremove {w r} (h : Same t X K n w r) := h.andThen fun h => h.removePlain hn
  cases plain <;> cases compressed
  · exact hremove hplaced
  · exact hremove (hcompress hplaced)
  · exact hplain
  · exact hcompress hplain

end Shows

end Page

namespace Sheet

variable {t : FileTree} {out : String} {O : Location} {x : Sheet}

/-- What stands in the places of a page. -/
def cells (x : Sheet) (t : FileTree) (O : Location) : Page.Cells :=
  ⟨t.entry? (O ++ x.plain), t.entry? (O ++ x.gzip)⟩

/-- What a page makes of its places, and what goes wrong. -/
def after (x : Sheet) (t : FileTree) (out : String) (O : Location) : Page.Cells.Result :=
  match t.wayRefusal? out O x.dir with
  | some e => (x.cells t O, .error (.write (x.target out) e))
  | none => (x.cells t O).write (x.target out) x.name x.html x.forms

/-- Before a page is written its directory is made. -/
theorem makePlace_target (t : FileTree) (out : String) (hname : IsName x.name) :
    Page.makePlace t (x.target out) =
      ((t.makeDirAll (Path.trimEnd (descend out x.dir))).1,
        (t.makeDirAll (Path.trimEnd (descend out x.dir))).2.mapError (.write (x.target out))) := by
  rcases hmake : t.makeDirAll (Path.trimEnd (descend out x.dir)) with ⟨t', ⟨e⟩ | ⟨⟩⟩ <;>
    simp [Page.makePlace, target, Path.parent?_join _ hname, hmake, Except.mapError]

theorem write_of_not_made {t' : FileTree} {e : FileError} (hname : IsName x.name)
    (hmake : t.makeDirAll (Path.trimEnd (descend out x.dir)) = (t', .error e)) :
    x.write out t = (t', .error (.write (x.target out) e)) := by
  have hplace := makePlace_target t out hname
  simp only [hmake, Except.mapError] at hplace
  rw [write, Page.write_of_not_placed (by simp [hplace]), hplace]

/-- A page has its outcome in its places, makes the directories on its way unless it is refused there,
and changes nothing else. -/
theorem write_eq (h : t.Opens out O) (ht : t.WellFormed) (hl : t.LinkFree) (hx : x.Valid)
    (hshort : ∀ n ∈ x.dir, FileTree.IsShort n) :
    (x.write out t).2 = (x.after t out O).2 ∧ x.cells (x.write out t).1 O = (x.after t out O).1 ∧
      ∀ M, M ≠ O ++ x.plain → M ≠ O ++ x.gzip → FileTree.entry? (x.write out t).1 M =
        if t.wayRefusal? out O x.dir = none ∧ O <+: M ∧ M <+: O ++ x.dir then some .directory
        else t.entry? M := by
  have hmade := FileTree.made_makeDirAll h ht hl hx.dir
  have hlong : ∀ n, ¬O ++ (x.dir ++ [n]) <+: O ++ x.dir := by
    intro n hle
    have hlength := hle.length_le
    simp only [List.length_append, List.length_singleton] at hlength
    omega
  cases hrefusal : t.wayRefusal? out O x.dir with
  | some e =>
    rw [write_of_not_made hx.name (FileTree.makeDirAll_of_wayRefusal h ht hl hshort hrefusal), after,
      hrefusal]
    simp
  | none =>
    obtain ⟨hok, hentry⟩ := FileTree.makeDirAll_of_way h ht hl hshort hrefusal
    have hopens := hmade.opens hok
    have hplace := makePlace_target t out hx.name
    simp only [hok, Except.mapError] at hplace
    have hcells : Page.Shows (t.makeDirAll (Path.trimEnd (descend out x.dir))).1
        (t.makeDirAll (Path.trimEnd (descend out x.dir))).1 (descend out x.dir) (O ++ x.dir) x.name
        (x.cells t O) := by
      refine ⟨hopens, hmade.grown.wellFormed ht, hmade.grown.linkFree hl, ?_, ?_, fun _ _ _ => rfl⟩
      · rw [List.append_assoc, hentry, if_neg fun hM => hlong _ hM.2]
        rfl
      · rw [List.append_assoc, hentry, if_neg fun hM => hlong _ hM.2]
        rfl
    obtain ⟨hresult, hshows⟩ := Page.Shows.write hx.name x.html x.forms (v := t)
      (show Page.Shows.Same _ _ _ _ (Page.makePlace t (join (descend out x.dir) x.name))
        (x.cells t O, .ok ()) from by
          rw [← target, hplace]
          exact ⟨rfl, hcells⟩)
    rw [after, hrefusal]
    refine ⟨hresult, ?_, fun M hM hM' => ?_⟩
    · rw [cells, plain, gzip, ← List.append_assoc, ← List.append_assoc]
      exact congr_arg₂ _ hshows.plain hshows.gzip
    · rw [plain, ← List.append_assoc] at hM
      rw [gzip, ← List.append_assoc] at hM'
      have hframe := hshows.frame M hM hM'
      rw [hentry] at hframe
      simpa [write, target] using hframe

end Sheet

end Cascade
