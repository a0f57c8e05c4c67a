import Cascade.Proofs.FileTree.Hosts
import Cascade.Proofs.Page.Sheet
/-!
Pages below a directory without links. Links elsewhere do not matter to a run in which each page is
written: it has the effects of its pages, keeps the directories that are there, and makes those of its
pages.
-/

namespace Cascade.Sheet

open Path (IsName join descend)
open FileTree (Fits Hosts)

/-- The tree `u` still hosts the output path, has the directories there that `t` has, and these files. -/
structure Onward (out : String) (O : Location) (t u : FileTree) (files : Files) : Prop where
  hosts : u.Hosts out O
  directory : ∀ M, t.entry? (O ++ M) = some .directory → u.entry? (O ++ M) = some .directory
  files : filesBelow u O = files

namespace Onward

variable {t u v : FileTree} {out : String} {O : Location} {files files' : Files} {ds : List String}
  {n : String}

theorem refl (h : t.Hosts out O) : Onward out O t t (filesBelow t O) := ⟨h, fun _ => id, rfl⟩

theorem trans (h : Onward out O t u files) (h' : Onward out O u v files') :
    Onward out O t v files' :=
  ⟨h'.hosts, fun M hM => h'.directory M (h.directory M hM), h'.files⟩

theorem opens (hu : Onward out O t u files) (h : t.Hosts out O) (hds : ∀ m ∈ ds, IsName m)
    (hX : t.Opens (descend out ds) (O ++ ds)) : u.Opens (descend out ds) (O ++ ds) := by
  obtain ⟨-, hfits, hdir⟩ := (h.opens_iff hds).mp hX
  exact (hu.hosts.opens_iff hds).mpr ⟨rfl, hfits, hu.directory ds hdir⟩

theorem of_grown {P : Location → Prop} (h : t.Hosts out O) (hu : FileTree.Grown P t u) :
    Onward out O t u (filesBelow t O) :=
  ⟨h.of_grown hu, fun _ => hu.directory, funext fun _ => hu.fileAt _⟩

theorem put (h : t.Hosts out O) (hn : IsName n) (hdir : t.entry? (O ++ ds) = some .directory)
    (hfree : t.entry? (O ++ ds ++ [n]) ≠ some .directory) (c : Bytes) :
    Onward out O t (t.put (O ++ ds ++ [n]) (.file c))
      (Function.update (filesBelow t O) (ds ++ [n]) (some c)) := by
  have hchanged := FileTree.changed_put_file hn (fun _ => hdir) hfree c
  refine ⟨h.of_changed ?_ hchanged fun target => ?_, fun _ => hchanged.directory, funext fun L => ?_⟩
  · rw [List.append_assoc]
    exact List.prefix_append O _
  · rw [FileTree.entry?_put _ (by simp)]
    simp
  · rw [filesBelow, FileTree.fileAt_put_file _ (by simp), Function.update_apply, List.append_assoc]
    simp only [List.append_cancel_left_eq]
    rfl

theorem drop (h : t.Hosts out O) (hfree : t.entry? (O ++ ds ++ [n]) ≠ some .directory) :
    Onward out O t (t.drop (O ++ ds ++ [n]))
      (Function.update (filesBelow t O) (ds ++ [n]) none) := by
  have hchanged := FileTree.changed_drop (by simp) hfree
  refine ⟨h.of_changed ?_ hchanged fun target => ?_, fun _ => hchanged.directory, funext fun L => ?_⟩
  · rw [List.append_assoc]
    exact List.prefix_append O _
  · rw [FileTree.entry?_drop _ (by simp)]
    simp
  · rw [filesBelow, FileTree.fileAt_drop _ (by simp), Function.update_apply, List.append_assoc]
    simp only [List.append_cancel_left_eq]
    rfl

/-- A file that is written. -/
theorem write (h : t.Hosts out O) (hds : ∀ m ∈ ds, IsName m) (hn : IsName n) {c : Bytes}
    (hok : (t.write (join (descend out ds) n) c).2 = .ok ()) :
    Onward out O t (t.write (join (descend out ds) n) c).1
        (Function.update (filesBelow t O) (ds ++ [n]) (some c)) ∧
      t.Opens (descend out ds) (O ++ ds) ∧ Fits (descend out (ds ++ [n])) (ds ++ [n]) := by
  obtain ⟨hX, hfits, hfree, htree⟩ := h.write_ok hds hn hok
  rw [htree]
  exact ⟨put h hn (hX.entry h.wellFormed) hfree c, hX, hfits⟩

/-- A file that is removed, if it is there. -/
theorem removeFile (h : t.Hosts out O) (hn : IsName n) (hX : t.Opens (descend out ds) (O ++ ds))
    (hok : ∀ e, (t.removeFile (join (descend out ds) n)).2 = .error e → e = .notFound) :
    Onward out O t (t.removeFile (join (descend out ds) n)).1
      (Function.update (filesBelow t O) (ds ++ [n]) none) := by
  obtain ⟨hfree, ⟨htree, hnone⟩ | htree⟩ := h.removeFile_ok hn hX hok
  · have hfile : filesBelow t O (ds ++ [n]) = none := by
      rw [filesBelow, ← List.append_assoc, FileTree.fileAt, hnone]
    rw [htree, ← hfile, Function.update_eq_self]
    exact refl h
  · rw [htree]
    exact drop h hfree

end Onward

/-- What a page makes of the files, one form after the other. -/
theorem effect_eq_update (x : Sheet) (files : Files) : x.effect files =
    Function.update (if x.forms.compressed then
        Function.update files x.gzip (some (Gzip.compress x.html)) else files)
      x.plain (if x.forms.plain then some x.html else none) := by
  funext L
  rw [effect, Function.update_apply]
  split
  · rfl
  · cases x.forms.compressed <;> simp [Function.update_apply]

/-- The forms that a page is written in have paths that are not too long. -/
def InReach (out : String) (x : Sheet) : Prop :=
  (x.forms.plain = true → Fits (descend out x.plain) x.plain) ∧
    (x.forms.compressed = true → Fits (descend out x.gzip) x.gzip)

section Write

variable {t u : FileTree} {out : String} {O : Location}

variable {x : Sheet} (h : t.Hosts out O) (hx : x.Valid)

include h hx

theorem onward_makePlace : Onward out O t (Page.makePlace t (x.target out)).1 (filesBelow t O) := by
  have habs : Path.isAbsolute (descend out x.dir) = true := by
    rw [Path.isAbsolute_descend out hx.dir, h.opens.absolute]
  rw [target, (Page.makePlace_eq t _ hx.name).1]
  exact .of_grown h (FileTree.makeDirAll_grown t (Path.isAbsolute_trimEnd habs))

theorem onward_writePlain (hok : (Page.writePlain t (x.target out) x.html).2 = .ok ()) :
    Onward out O t (Page.writePlain t (x.target out) x.html).1
        (Function.update (filesBelow t O) x.plain (some x.html)) ∧
      t.Opens (descend out x.dir) (O ++ x.dir) ∧ Fits (descend out x.plain) x.plain := by
  rw [Page.writePlain_fst]
  exact Onward.write h hx.dir hx.name ((Page.writePlain_snd_eq_ok ..).mp hok)

theorem onward_writeCompressed (hok : (Page.writeCompressed t (x.target out) x.html).2 = .ok ()) :
    Onward out O t (Page.writeCompressed t (x.target out) x.html).1
        (Function.update (filesBelow t O) x.gzip (some (Gzip.compress x.html))) ∧
      t.Opens (descend out x.dir) (O ++ x.dir) ∧ Fits (descend out x.gzip) x.gzip := by
  have hwrite := (Page.writeCompressed_snd_eq_ok ..).mp hok
  rw [Page.writeCompressed_fst]
  rw [target, Page.gzipPath_join _ hx.name] at hwrite ⊢
  exact Onward.write h hx.dir (Page.isName_gzipName hx.name) hwrite

theorem onward_removePlain (hX : t.Opens (descend out x.dir) (O ++ x.dir))
    (hok : (Page.removePlain t (x.target out)).2 = .ok ()) :
    Onward out O t (Page.removePlain t (x.target out)).1
      (Function.update (filesBelow t O) x.plain none) := by
  rw [Page.removePlain_fst]
  refine .removeFile h hx.name hX fun e he => ?_
  rcases (Page.removePlain_snd_eq_ok ..).mp hok with hgone | hnone
  · exact absurd (hgone.symm.trans he) (by simp)
  · exact (Except.error.inj (hnone.symm.trans he)).symm

/-- A page that is written, in one form at least. -/
theorem onward_write (hform : x.forms.plain = true ∨ x.forms.compressed = true)
    (hok : (x.write out t).2 = .ok ()) :
    Onward out O t (x.write out t).1 (x.effect (filesBelow t O)) ∧
      FileTree.entry? (x.write out t).1 (O ++ x.dir) = some .directory ∧ x.InReach out := by
  have hplaced : (Page.makePlace t (x.target out)).2 = .ok () := by
    by_contra hno
    rw [write, Page.write_of_not_placed hno] at hok
    exact hno hok
  have hplace := onward_makePlace h hx
  -- the directory of the page is there when its first form is written, and stays
  have hdir : ∀ {u v files}, Onward out O u v files → u.Hosts out O →
      u.Opens (descend out x.dir) (O ++ x.dir) → v.entry? (O ++ x.dir) = some .directory :=
    fun hv hu hX => hv.directory _ (hX.entry hu.wellFormed)
  rw [effect_eq_update]
  rw [write, Page.write] at hok ⊢
  cases hp : x.forms.plain with
  | true =>
    cases hc : x.forms.compressed with
    | false =>
      simp only [hp, hc, if_true, Bool.false_eq_true, if_false, Page.Written.andThen_of_ok hplaced]
        at hok ⊢
      obtain ⟨hplain, hX, hfits⟩ := onward_writePlain hplace.hosts hx hok
      rw [hplace.files] at hplain
      exact ⟨hplace.trans hplain, hdir hplain hplace.hosts hX, fun _ => hfits, by simp [hc]⟩
    | true =>
      simp only [hp, hc, if_true, Page.Written.andThen_of_ok hplaced] at hok ⊢
      obtain ⟨hok, hok', he⟩ := Page.Written.ok_of_andThen hok
      obtain ⟨hplain, hX, hfits⟩ := onward_writePlain hplace.hosts hx hok
      obtain ⟨hgzip, hX', hfits'⟩ := onward_writeCompressed hplain.hosts hx hok'
      rw [hplain.files, hplace.files, Function.update_comm (plain_ne_gzip hx)] at hgzip
      rw [he]
      exact ⟨(hplace.trans hplain).trans hgzip, hdir hgzip hplain.hosts hX', fun _ => hfits,
        fun _ => hfits'⟩
  | false =>
    have hc : x.forms.compressed = true := hform.resolve_left (by simp [hp])
    simp only [hp, hc, if_true, Bool.false_eq_true, if_false, Page.Written.andThen_of_ok hplaced]
      at hok ⊢
    obtain ⟨hok, hok', he⟩ := Page.Written.ok_of_andThen hok
    obtain ⟨hgzip, hX, hfits⟩ := onward_writeCompressed hplace.hosts hx hok
    have hX' := hgzip.opens hplace.hosts hx.dir hX
    have hplain := onward_removePlain hgzip.hosts hx hX' hok'
    rw [hgzip.files, hplace.files] at hplain
    rw [he]
    exact ⟨(hplace.trans hgzip).trans hplain, hdir hplain hgzip.hosts hX', by simp [hp],
      fun _ => hfits⟩

omit hx in
/-- A run has the effects of its pages, and makes their directories. -/
theorem Writes.onward {xs : List Sheet} (hrun : Writes out t xs u) (hvalid : ∀ x ∈ xs, x.Valid)
    (hform : ∀ x ∈ xs, x.forms.plain = true ∨ x.forms.compressed = true) :
    Onward out O t u (effects xs (filesBelow t O)) ∧
      ∀ x ∈ xs, u.entry? (O ++ x.dir) = some .directory ∧ x.InReach out := by
  induction hrun with
  | nil t => exact ⟨.refl h, by simp⟩
  | @cons t t' u x xs hwrite _ ih =>
    obtain ⟨hstep, hdir, hreach⟩ := onward_write h (hvalid x List.mem_cons_self)
      (hform x List.mem_cons_self) (by rw [hwrite])
    rw [hwrite] at hstep hdir
    obtain ⟨hrest, hpages⟩ := ih hstep.hosts (fun y hy => hvalid y (List.mem_cons_of_mem _ hy))
      fun y hy => hform y (List.mem_cons_of_mem _ hy)
    rw [hstep.files] at hrest
    refine ⟨hstep.trans hrest, fun y hy => ?_⟩
    rcases List.mem_cons.mp hy with rfl | hy
    · exact ⟨hrest.directory _ hdir, hreach⟩
    · exact hpages y hy

end Write

end Cascade.Sheet
