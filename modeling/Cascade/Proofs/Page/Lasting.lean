import Cascade.Proofs.Page.Hosted
/-!
What a page leaves of the files that are there, also where it is refused. A file goes only if it is the
plain form of a page that has just been written compressed, and is to be there in that form alone.
-/

namespace Cascade

namespace FileTree

variable {t : FileTree} {path : String} {c : Bytes}

/-- What is refused leaves the tree as it is. -/
theorem write_of_refused (h : (t.write path c).2 ≠ .ok ()) : (t.write path c).1 = t := by
  unfold write at h ⊢
  split <;> simp_all
  split <;> simp_all

theorem removeFile_of_refused (h : (t.removeFile path).2 ≠ .ok ()) : (t.removeFile path).1 = t := by
  unfold removeFile at h ⊢
  split <;> simp_all

end FileTree

namespace Page

variable {t : FileTree} {path : String} {html : Bytes}

theorem writePlain_of_refused (h : (writePlain t path html).2 ≠ .ok ()) :
    (writePlain t path html).1 = t := by
  rw [writePlain_fst]
  exact FileTree.write_of_refused (mt (writePlain_snd_eq_ok t path html).mpr h)

theorem writeCompressed_of_refused (h : (writeCompressed t path html).2 ≠ .ok ()) :
    (writeCompressed t path html).1 = t := by
  rw [writeCompressed_fst]
  exact FileTree.write_of_refused (mt (writeCompressed_snd_eq_ok t path html).mpr h)

theorem removePlain_of_refused (h : (removePlain t path).2 ≠ .ok ()) : (removePlain t path).1 = t := by
  rw [removePlain_fst]
  exact FileTree.removeFile_of_refused
    fun hok => h ((removePlain_snd_eq_ok t path).mpr (.inl hok))

end Page

namespace Sheet

/-- What can become of the files when a page is written: with each step of it some more of its forms are
in place. -/
inductive Steps (x : Sheet) (files : Files) : Files → Prop where
  | none : Steps x files files
  | plain (h : x.forms.plain = true) : Steps x files (Function.update files x.plain (some x.html))
  | both (h : x.forms.plain = true) : Steps x files
      (Function.update (Function.update files x.plain (some x.html)) x.gzip
        (some (Gzip.compress x.html)))
  | gzip (h : x.forms.plain = false) :
      Steps x files (Function.update files x.gzip (some (Gzip.compress x.html)))
  | alone (h : x.forms.plain = false) : Steps x files
      (Function.update (Function.update files x.gzip (some (Gzip.compress x.html))) x.plain Option.none)

/-- A page stands in its compressed form, and is to stand in that alone. -/
structure Alone (x : Sheet) (files : Files) : Prop where
  form : x.forms.plain = false
  gzip : files x.gzip = some (Gzip.compress x.html)

/-- A file is there, or it is the plain form of a page that stands compressed. -/
def Kept (xs : List Sheet) (files : Files) (L : List String) : Prop :=
  (files L).isSome ∨ ∃ x ∈ xs, L = x.plain ∧ x.Alone files

section Files

variable {x y : Sheet} {xs : List Sheet} {files files' : Files} {L : List String}

theorem Steps.kept (h : x.Steps files files') (hx : x.Valid) (hL : (files L).isSome) :
    Kept [x] files' L := by
  cases h with
  | none => exact .inl hL
  | plain => exact .inl (by by_cases he : L = x.plain <;> simp [he, hL])
  | both =>
    left
    simp only [Function.update_apply]
    split
    · rfl
    · split
      · rfl
      · exact hL
  | gzip => exact .inl (by by_cases he : L = x.gzip <;> simp [he, hL])
  | alone h =>
    by_cases he : L = x.plain
    · refine .inr ⟨x, List.mem_singleton_self x, he, h, ?_⟩
      rw [Function.update_of_ne (plain_ne_gzip hx).symm, Function.update_self]
    · left
      rw [Function.update_of_ne he, Function.update_apply]
      split
      · rfl
      · exact hL

/-- A compressed page stays, or another one is written in its place, in either form. -/
theorem Alone.steps (hy : y.Alone files) (h : x.Steps files files') (hx : x.Valid) :
    (files' y.plain).isSome ∨ y.Alone files' ∨ (y.plain = x.plain ∧ x.Alone files') := by
  have hne : y.gzip ≠ x.plain := (plain_ne_gzip hx).symm
  by_cases hsame : y.plain = x.plain
  · have hgzip : y.gzip = x.gzip := gzip_inj.mpr hsame
    cases h with
    | none => exact .inr (.inl hy)
    | plain => exact .inl (by simp [hsame])
    | both => exact .inl (by simp [hsame, Function.update_of_ne (plain_ne_gzip hx)])
    | gzip hform => exact .inr (.inr ⟨hsame, hform, by simp⟩)
    | alone hform =>
      refine .inr (.inr ⟨hsame, hform, ?_⟩)
      rw [Function.update_of_ne (plain_ne_gzip hx).symm, Function.update_self]
  · have hgzip : y.gzip ≠ x.gzip := fun he => hsame (gzip_inj.mp he)
    refine .inr (.inl ⟨hy.form, ?_⟩)
    rw [← hy.gzip]
    cases h with
    | none => rfl
    | plain => rw [Function.update_of_ne hne]
    | both => rw [Function.update_of_ne hgzip, Function.update_of_ne hne]
    | gzip => rw [Function.update_of_ne hgzip]
    | alone => rw [Function.update_of_ne hne, Function.update_of_ne hgzip]

theorem Kept.steps (hL : Kept xs files L) (h : x.Steps files files') (hx : x.Valid) :
    Kept (xs ++ [x]) files' L := by
  have hlast : x ∈ xs ++ [x] := List.mem_append_right _ (List.mem_singleton_self x)
  rcases hL with hL | ⟨y, hy, rfl, halone⟩
  · rcases h.kept hx hL with hL' | ⟨z, hz, hplain, halone⟩
    · exact .inl hL'
    · rw [List.mem_singleton.mp hz] at hplain halone
      exact .inr ⟨x, hlast, hplain, halone⟩
  · rcases halone.steps h hx with hL' | halone' | ⟨hplain, halone'⟩
    · exact .inl hL'
    · exact .inr ⟨y, List.mem_append_left _ hy, rfl, halone'⟩
    · exact .inr ⟨x, hlast, hplain, halone'⟩

end Files

section Write

variable {t u : FileTree} {out : String} {O : Location} {x : Sheet} {xs : List Sheet}

/-- The plain form, and the compressed one behind it. -/
theorem steps_plain (h : t.Hosts out O) (hx : x.Valid) (hp : x.forms.plain = true) :
    ∃ files, Onward out O t (if x.forms.compressed then
        (Page.writePlain t (x.target out) x.html).andThen (Page.writeCompressed · (x.target out) x.html)
      else Page.writePlain t (x.target out) x.html).1 files ∧ x.Steps (filesBelow t O) files := by
  by_cases hok : (Page.writePlain t (x.target out) x.html).2 = .ok ()
  · obtain ⟨hplain, -, -⟩ := onward_writePlain h hx hok
    cases x.forms.compressed with
    | false => exact ⟨_, hplain, .plain hp⟩
    | true =>
      simp only [if_true, Page.Written.andThen_of_ok hok]
      by_cases hok' : (Page.writeCompressed (Page.writePlain t (x.target out) x.html).1
          (x.target out) x.html).2 = .ok ()
      · obtain ⟨hgzip, -, -⟩ := onward_writeCompressed hplain.hosts hx hok'
        rw [hplain.files] at hgzip
        exact ⟨_, hplain.trans hgzip, .both hp⟩
      · rw [Page.writeCompressed_of_refused hok']
        exact ⟨_, hplain, .plain hp⟩
  · have hrefused := Page.writePlain_of_refused hok
    refine ⟨_, ?_, .none⟩
    cases x.forms.compressed with
    | false =>
      simp only [Bool.false_eq_true, if_false, hrefused]
      exact .refl h
    | true =>
      simp only [if_true, Page.Written.andThen_of_ne hok, hrefused]
      exact .refl h

/-- The compressed form, and then the plain one goes. -/
theorem steps_alone (h : t.Hosts out O) (hx : x.Valid) (hp : x.forms.plain = false) :
    ∃ files, Onward out O t ((Page.writeCompressed t (x.target out) x.html).andThen
      (Page.removePlain · (x.target out))).1 files ∧ x.Steps (filesBelow t O) files := by
  by_cases hok : (Page.writeCompressed t (x.target out) x.html).2 = .ok ()
  · obtain ⟨hgzip, hX, -⟩ := onward_writeCompressed h hx hok
    have hX' := hgzip.opens h hx.dir hX
    rw [Page.Written.andThen_of_ok hok]
    by_cases hok' : (Page.removePlain (Page.writeCompressed t (x.target out) x.html).1
        (x.target out)).2 = .ok ()
    · have hplain := onward_removePlain hgzip.hosts hx hX' hok'
      rw [hgzip.files] at hplain
      exact ⟨_, hgzip.trans hplain, .alone hp⟩
    · rw [Page.removePlain_of_refused hok']
      exact ⟨_, hgzip, .gzip hp⟩
  · rw [Page.Written.andThen_of_ne hok, Page.writeCompressed_of_refused hok]
    exact ⟨_, .refl h, .none⟩

/-- A page is written in steps, also where it is refused. -/
theorem steps_write (h : t.Hosts out O) (hx : x.Valid)
    (hform : x.forms.plain = true ∨ x.forms.compressed = true) :
    ∃ files, Onward out O t (x.write out t).1 files ∧ x.Steps (filesBelow t O) files := by
  have hplace := onward_makePlace h hx
  by_cases hplaced : (Page.makePlace t (x.target out)).2 = .ok ()
  · rw [write, Page.write]
    cases hp : x.forms.plain with
    | true =>
      obtain ⟨files, honward, hsteps⟩ := steps_plain hplace.hosts hx hp
      rw [hplace.files] at hsteps
      simp only [if_true, Page.Written.andThen_of_ok hplaced]
      exact ⟨files, hplace.trans honward, hsteps⟩
    | false =>
      have hc : x.forms.compressed = true := hform.resolve_left (by simp [hp])
      obtain ⟨files, honward, hsteps⟩ := steps_alone hplace.hosts hx hp
      rw [hplace.files] at hsteps
      simp only [hc, if_true, Bool.false_eq_true, if_false, Page.Written.andThen_of_ok hplaced]
      exact ⟨files, hplace.trans honward, hsteps⟩
  · rw [write, Page.write_of_not_placed hplaced]
    exact ⟨_, hplace, .none⟩

/-- What is kept is kept through a run, whatever becomes of each page. -/
theorem kept_runAll (h : t.Hosts out O) (hvalid : ∀ x ∈ xs, x.Valid)
    (hform : ∀ x ∈ xs, x.forms.plain = true ∨ x.forms.compressed = true) {ys : List Sheet}
    {L : List String} (hL : Kept ys (filesBelow t O) L) :
    Kept (ys ++ xs) (filesBelow (runAll out t xs).1 O) L := by
  induction xs generalizing t ys with
  | nil =>
    rw [List.append_nil]
    exact hL
  | cons x xs ih =>
    have hx := hvalid x List.mem_cons_self
    obtain ⟨files, honward, hsteps⟩ := steps_write h hx (hform x List.mem_cons_self)
    have hL' := hL.steps hsteps hx
    rw [← honward.files] at hL'
    have hrest := ih honward.hosts (fun y hy => hvalid y (List.mem_cons_of_mem _ hy))
      (fun y hy => hform y (List.mem_cons_of_mem _ hy)) hL'
    rw [runAll_cons_fst]
    simpa using hrest

end Write

end Sheet

end Cascade
