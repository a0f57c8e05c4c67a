import Cascade.Proofs.Page.Runs
/-!
The same run once more. Pages may share their places, and the directory of one may have the name of
another's file; still a run over the tree that it left comes to the same tree. While the pages are
written once more, what stands in a place is what stood there the first time round, or it is what the
whole run left there, except that the compressed form of a page can be out of date as long as the plain
one of another page in its place is still to be removed.
-/

namespace Cascade

open Path (IsName join descend)

namespace Page.Cells

variable {path name : String} {html : Bytes} {forms : Forms} {c d u : Cells}

/-- What a page with a plain form makes of its places. -/
theorem write_of_plain (hplain : forms.plain = true) :
    (write path name html forms c).1 =
      if (fileRefusal? path name c.plain).isSome then c
      else ⟨some (.file html),
        if forms.compressed = true ∧ fileRefusal? (gzipPath path) (gzipName name) c.gzip = none then
          some (.file (Gzip.compress html)) else c.gzip⟩ := by
  simp only [write, hplain, if_true, writePlain]
  cases hp : fileRefusal? path name c.plain with
  | some e => cases forms.compressed <;> simp [Result.andThen]
  | none =>
    cases hg : fileRefusal? (gzipPath path) (gzipName name) c.gzip <;> cases forms.compressed <;>
      simp [Result.andThen, writeCompressed, hg]

/-- What a page that is only to be compressed makes of its places. -/
theorem write_of_compressed (hplain : forms.plain = false) (hcompressed : forms.compressed = true) :
    (write path name html forms c).1 =
      if (fileRefusal? (gzipPath path) (gzipName name) c.gzip).isSome then c
      else ⟨if (fileRefusal? path name c.plain).isSome then c.plain else none,
        some (.file (Gzip.compress html))⟩ := by
  simp only [write, hplain, hcompressed, if_true, Bool.false_eq_true, if_false]
  cases hg : fileRefusal? (gzipPath path) (gzipName name) c.gzip with
  | some e => simp [Result.andThen, writeCompressed, hg]
  | none =>
    cases hp : fileRefusal? path name c.plain <;>
      simp [Result.andThen, writeCompressed, removePlain, hp, hg]

theorem isSome_fileRefusal? {old : Option Entry} : (fileRefusal? path name old).isSome = true ↔
    (FileTree.refusal? path name).isSome = true ∨ old = some .directory := by
  unfold fileRefusal?
  split
  · simp [*]
  · split <;> simp [*]

/-- A place in the replay, against the first run and what it left: `c` stands in the places of a page in
the first run, `d` in the replay, and `u` after the first run. -/
structure Near (c d u : Cells) : Prop where
  plain : d.plain = c.plain ∨ d.plain = u.plain
  gzip : d.gzip = c.gzip ∨ d.gzip = u.gzip ∨
    (∃ b, c.plain = some (.file b)) ∧ u.plain = some .directory

/-- Directories stay, and those of the replay are those that the first run left. -/
structure DirsAgree (c d u : Option Entry) : Prop where
  stay : c = some .directory → u = some .directory
  iff : d = some .directory ↔ u = some .directory

theorem DirsAgree.refused {c d u : Option Entry} (h : DirsAgree c d u)
    (hc : (fileRefusal? path name c).isSome = true) : (fileRefusal? path name d).isSome = true := by
  rw [isSome_fileRefusal?] at hc ⊢
  exact hc.imp_right fun hc => h.iff.mpr (h.stay hc)

/-- A place that is only refused the second time holds a directory in the end. -/
theorem DirsAgree.directory {c d u : Option Entry} (h : DirsAgree c d u)
    (hc : ¬(fileRefusal? path name c).isSome = true)
    (hd : (fileRefusal? path name d).isSome = true) : d = some .directory ∧ u = some .directory := by
  rw [isSome_fileRefusal?] at hc hd
  have hdir := hd.resolve_left fun hr => hc (.inl hr)
  exact ⟨hdir, h.iff.mp hdir⟩

/-- A place that is free stays free if no directory is made there. -/
theorem DirsAgree.free {c d u : Option Entry} (h : DirsAgree c d u)
    (hc : ¬(fileRefusal? path name c).isSome = true) (hu : u ≠ some .directory) :
    ¬(fileRefusal? path name d).isSome = true := fun hd => hu (h.directory hc hd).2

section Written

variable (h : Near c d u) (hplain : DirsAgree c.plain d.plain u.plain)
  (hgzip : DirsAgree c.gzip d.gzip u.gzip)
  (hlast : ∀ b, (Cells.write path name html forms c).1.gzip = some (.file b) →
    u.gzip ≠ some .directory)

include h hplain hgzip hlast

theorem Near.write_of_plain (hform : forms.plain = true) :
    Near (Cells.write path name html forms c).1 (Cells.write path name html forms d).1 u := by
  rw [Cells.write_of_plain hform] at hlast
  rw [Cells.write_of_plain hform, Cells.write_of_plain hform]
  by_cases hc : (fileRefusal? path name c.plain).isSome = true
  · rw [if_pos hc, if_pos (hplain.refused hc)]
    exact h
  rw [if_neg hc] at hlast
  rw [if_neg hc]
  by_cases hd : (fileRefusal? path name d.plain).isSome = true
  · -- the page of another directory has this name: the compressed form waits for its removal
    obtain ⟨hdir, hudir⟩ := hplain.directory hc hd
    rw [if_pos hd]
    exact ⟨.inr (hdir.trans hudir.symm), .inr (.inr ⟨⟨html, rfl⟩, hudir⟩)⟩
  rw [if_neg hd]
  refine ⟨.inl rfl, ?_⟩
  simp only [← Option.isNone_iff_eq_none, ← Option.not_isSome, Bool.not_eq_true'] at hlast ⊢
  by_cases hcompress : forms.compressed = true ∧
      (fileRefusal? (gzipPath path) (gzipName name) c.gzip).isSome = false
  · rw [if_pos hcompress] at hlast
    have hgfree : ¬(fileRefusal? (gzipPath path) (gzipName name) d.gzip).isSome = true :=
      hgzip.free (by simp [hcompress.2]) (hlast _ rfl)
    rw [if_pos hcompress, if_pos ⟨hcompress.1, by simpa using hgfree⟩]
    exact .inl rfl
  · have hcompress' : ¬(forms.compressed = true ∧
        (fileRefusal? (gzipPath path) (gzipName name) d.gzip).isSome = false) := by
      rintro ⟨hcompressed, hd⟩
      refine hcompress ⟨hcompressed, ?_⟩
      rw [← Bool.not_eq_true] at hd ⊢
      exact fun hc => hd (hgzip.refused hc)
    rw [if_neg hcompress, if_neg hcompress']
    exact h.gzip.imp_right (Or.imp_right fun hwait => ⟨⟨html, rfl⟩, hwait.2⟩)

theorem Near.write_of_compressed (hform : forms.plain = false)
    (hcompressed : forms.compressed = true) :
    Near (Cells.write path name html forms c).1 (Cells.write path name html forms d).1 u := by
  rw [Cells.write_of_compressed hform hcompressed] at hlast
  rw [Cells.write_of_compressed hform hcompressed, Cells.write_of_compressed hform hcompressed]
  by_cases hg : (fileRefusal? (gzipPath path) (gzipName name) c.gzip).isSome = true
  · rw [if_pos hg, if_pos (hgzip.refused hg)]
    exact h
  rw [if_neg hg] at hlast
  rw [if_neg hg, if_neg (hgzip.free hg (hlast _ rfl))]
  refine ⟨?_, .inl rfl⟩
  by_cases hc : (fileRefusal? path name c.plain).isSome = true
  · rw [if_pos hc, if_pos (hplain.refused hc)]
    exact h.plain
  by_cases hd : (fileRefusal? path name d.plain).isSome = true
  · obtain ⟨hdir, hudir⟩ := hplain.directory hc hd
    rw [if_pos hd]
    exact .inr (hdir.trans hudir.symm)
  · rw [if_neg hc, if_neg hd]
    exact .inl rfl

/-- A page that is written in both runs leaves its places as near as they were. -/
theorem Near.write (hforms : forms.plain = false → forms.compressed = true) :
    Near (Cells.write path name html forms c).1 (Cells.write path name html forms d).1 u := by
  cases hform : forms.plain with
  | true => exact h.write_of_plain hplain hgzip hlast hform
  | false => exact h.write_of_compressed hplain hgzip hlast hform (hforms hform)

end Written

end Page.Cells

namespace Sheet

variable {out : String} {O : Location} {x : Sheet} {xs : List Sheet} {t u v w : FileTree}

section Run

variable (h : t.Opens out O) (ht : t.WellFormed) (hl : t.LinkFree)

include h ht hl

theorem changed_runAll (hvalid : ∀ x ∈ xs, x.Valid) :
    FileTree.Changed (NeedsDir O xs) (HasPlace O xs) t (runAll out t xs).1 := by
  induction xs generalizing t with
  | nil => exact .refl _ _ t
  | cons x xs ih =>
    have hstep := changed_write h ht hl (hvalid x List.mem_cons_self)
    rw [runAll_cons_fst]
    exact changed_cons hstep (ih (hstep.opens ht hl h) (hstep.wellFormed ht) (hstep.linkFree hl)
      fun y hy => hvalid y (List.mem_cons_of_mem _ hy))

/-- The directory of a page is made, if no file is on the way to it and no page is to be written there. -/
theorem directory_of_mem_runAll (hproper : ∀ y ∈ xs, y.Proper) (hx : x ∈ xs)
    (hway : t.wayRefusal? out O x.dir = none)
    (hfree : ∀ front, front <+: x.dir → ¬HasPlace O xs (O ++ front)) :
    FileTree.entry? (runAll out t xs).1 (O ++ x.dir) = some .directory := by
  induction xs generalizing t with
  | nil => simp at hx
  | cons y ys ih =>
    have hy := hproper y List.mem_cons_self
    have hys : ∀ z ∈ ys, z.Proper := fun z hz => hproper z (List.mem_cons_of_mem _ hz)
    have hstep := changed_write h ht hl hy.valid
    have hopens := hstep.opens ht hl h
    have hplace : ∀ front, front <+: x.dir → O ++ front ≠ O ++ y.plain ∧ O ++ front ≠ O ++ y.gzip :=
      fun front hfront => ⟨fun he => hfree front hfront ⟨y, List.mem_cons_self, .inl he⟩,
        fun he => hfree front hfront ⟨y, List.mem_cons_self, .inr he⟩⟩
    rw [runAll_cons_fst]
    rcases List.mem_cons.mp hx with rfl | hx
    · refine (changed_runAll hopens (hstep.wellFormed ht) (hstep.linkFree hl)
        fun z hz => (hys z hz).valid).directory ?_
      obtain ⟨hplain, hgzip⟩ := hplace x.dir List.prefix_rfl
      rw [(write_eq h ht hl hy.valid hy.short).2.2 _ hplain hgzip,
        if_pos ⟨hway, List.prefix_append _ _, List.prefix_rfl⟩]
    · refine ih hopens (hstep.wellFormed ht) (hstep.linkFree hl) hys hx ?_ fun front hfront => ?_
      · rw [FileTree.wayRefusal?_eq_none] at hway ⊢
        refine ⟨hway.1, fun front hne hfront => ?_⟩
        rw [hstep.fileAt, hway.2 front hne hfront]
        rintro ⟨z, hz, he⟩
        obtain rfl := List.mem_singleton.mp hz
        exact he.elim (hplace front hfront).1 (hplace front hfront).2
      · rintro ⟨z, hz, he⟩
        exact hfree front hfront ⟨z, List.mem_cons_of_mem _ hz, he⟩

/-- A page takes no file away but its own plain form. -/
theorem isSome_fileAt_write (hx : x.Valid) {M : Location} (hM : M ≠ O ++ x.plain)
    (hfile : (t.fileAt M).isSome = true) : ((x.write out t).1.fileAt M).isSome = true := by
  by_cases hgzip : M = O ++ x.gzip
  · subst hgzip
    have hwrote := (wrote h ht hl hx).compressed
    rw [List.append_assoc] at hwrote
    rcases hwrote with hsame | ⟨-, hnew⟩
    · rw [gzip, hsame]
      exact hfile
    · rw [gzip, hnew]
      rfl
  · rw [(changed_write h ht hl hx).fileAt]
    · exact hfile
    · rintro ⟨y, hy, he⟩
      obtain rfl := List.mem_singleton.mp hy
      exact he.elim hM hgzip

theorem isSome_fileAt_runAll (hvalid : ∀ x ∈ xs, x.Valid) {M : Location}
    (hM : ∀ x ∈ xs, M ≠ O ++ x.plain) (hfile : (t.fileAt M).isSome = true) :
    ((runAll out t xs).1.fileAt M).isSome = true := by
  induction xs generalizing t with
  | nil => exact hfile
  | cons x xs ih =>
    have hx := hvalid x List.mem_cons_self
    have hstep := changed_write h ht hl hx
    rw [runAll_cons_fst]
    exact ih (hstep.opens ht hl h) (hstep.wellFormed ht) (hstep.linkFree hl)
      (fun y hy => hvalid y (List.mem_cons_of_mem _ hy))
      (fun y hy => hM y (List.mem_cons_of_mem _ hy))
      (isSome_fileAt_write h ht hl hx (hM x List.mem_cons_self) hfile)

end Run

/-- The replay has come to `w` where the first run had come to `v`, and `u` is what that left in the
end. -/
structure Between (O : Location) (v w u : FileTree) : Prop where
  directory : ∀ M, w.entry? M = some .directory ↔ u.entry? M = some .directory
  kept : ∀ M, (∀ x : Sheet, x.Valid → M ≠ O ++ x.plain) → (u.fileAt M).isSome = true →
    (w.fileAt M).isSome = true
  entry : ∀ M, w.entry? M = v.entry? M ∨ w.entry? M = u.entry? M ∨
    ∃ x : Sheet, x.Valid ∧ M = O ++ x.gzip ∧ (v.fileAt (O ++ x.plain)).isSome = true ∧
      u.entry? (O ++ x.plain) = some .directory

theorem Between.refl (O : Location) (v u : FileTree) : Between O v u u :=
  ⟨fun _ => .rfl, fun _ _ => id, fun _ => .inr (.inl rfl)⟩

theorem Between.eq (h : Between O u w u) (M : Location) : w.entry? M = u.entry? M := by
  rcases h.entry M with he | he | ⟨x, -, -, hfile, hdir⟩
  · exact he
  · exact he
  · rw [FileTree.fileAt_of_directory hdir] at hfile
    simp at hfile

section Step

variable (hb : Between O v w u) (hv : v.Opens out O) (hvt : v.WellFormed) (hvl : v.LinkFree)
  (hx : x.Proper) (hxs : ∀ y ∈ xs, y.Valid) (horder : ∀ y ∈ xs, ¬y.plain <+: x.dir)
  (hu : u = (runAll out (x.write out v).1 xs).1)

/-- What is on the way to a page is not one of its own places. -/
theorem ne_place_of_prefix {front : List String} (hfront : front <+: x.dir) :
    O ++ front ≠ O ++ x.plain ∧ O ++ front ≠ O ++ x.gzip := by
  have hlength := hfront.length_le
  constructor <;>
  · intro he
    have hsame := congrArg List.length (List.append_cancel_left he)
    simp only [plain, gzip, List.length_append, List.length_singleton] at hsame
    omega

include hv hvt hvl hx hxs hu

/-- What the first run leaves where it makes a directory, or where a page has a compressed form. -/
theorem directory_of_first {M : Location}
    (hM : FileTree.entry? (x.write out v).1 M = some .directory) :
    u.entry? M = some .directory := by
  have hstep := changed_write hv hvt hvl hx.valid
  rw [hu]
  exact (changed_runAll (hstep.opens hvt hvl hv) (hstep.wellFormed hvt) (hstep.linkFree hvl) hxs).directory
    hM

include hb horder

/-- A page is refused for what is on its way in both runs or in neither. -/
theorem Between.free_iff :
    v.wayRefusal? out O x.dir = none ↔ w.wayRefusal? out O x.dir = none := by
  have hstep := changed_write hv hvt hvl hx.valid
  rw [FileTree.wayRefusal?_eq_none, FileTree.wayRefusal?_eq_none]
  refine and_congr_right fun hfits => ⟨fun hfree front hne hfront => ?_, fun hfree front hne hfront => ?_⟩
  · -- the directory that the first run makes here stays
    have hway : v.wayRefusal? out O x.dir = none :=
      FileTree.wayRefusal?_eq_none.mpr ⟨hfits, hfree⟩
    have hplace := ne_place_of_prefix (O := O) hfront
    have hmade := (write_eq hv hvt hvl hx.valid hx.short).2.2 _ hplace.1 hplace.2
    rw [if_pos ⟨hway, List.prefix_append _ _, (List.prefix_append_right_inj O).mpr hfront⟩] at hmade
    exact FileTree.fileAt_of_directory
      ((hb.directory _).mpr (directory_of_first hv hvt hvl hx hxs hu hmade))
  · -- a file that is in the way stays, since the pages that could remove it come before
    by_contra hfile
    have hsome : (v.fileAt (O ++ front)).isSome = true := by
      rwa [← Option.ne_none_iff_isSome]
    have hplace := ne_place_of_prefix (O := O) hfront
    have hkept : (u.fileAt (O ++ front)).isSome = true := by
      rw [hu]
      refine isSome_fileAt_runAll (hstep.opens hvt hvl hv) (hstep.wellFormed hvt)
        (hstep.linkFree hvl) hxs (fun y hy he => horder y hy ?_)
        (isSome_fileAt_write hv hvt hvl hx.valid hplace.1 hsome)
      rwa [← List.append_cancel_left he]
    have hnone := hfree front hne hfront
    rcases hb.entry (O ++ front) with he | he | ⟨y, hy, he, -⟩
    · rw [FileTree.fileAt, he] at hnone
      rw [FileTree.fileAt, hnone] at hsome
      simp at hsome
    · rw [FileTree.fileAt, he] at hnone
      rw [FileTree.fileAt, hnone] at hkept
      simp at hkept
    · have hstays := hb.kept (O ++ front)
        (fun z hz hez => plain_ne_gzip hz (List.append_cancel_left (hez.symm.trans he))) hkept
      rw [hnone] at hstays
      simp at hstays

omit hv hvt hvl hxs hu horder in
theorem Between.near : Page.Cells.Near (x.cells v O) (x.cells w O) (x.cells u O) := by
  constructor
  · rcases hb.entry (O ++ x.plain) with he | he | ⟨y, -, he, -⟩
    · exact .inl he
    · exact .inr he
    · exact absurd (List.append_cancel_left he) (plain_ne_gzip hx.valid)
  · rcases hb.entry (O ++ x.gzip) with he | he | ⟨y, -, he, hfile, hdir⟩
    · exact .inl he
    · exact .inr (.inl he)
    · rw [← gzip_inj.mp (List.append_cancel_left he)] at hfile hdir
      obtain ⟨b, hb⟩ := Option.isSome_iff_exists.mp hfile
      exact .inr (.inr ⟨⟨b, FileTree.fileAt_eq_some.mp hb⟩, hdir⟩)

/-- After a page is written in both runs, its places are as near as before. -/
theorem Between.near_write (hw : w.Opens out O) (hwt : w.WellFormed) (hwl : w.LinkFree)
    (hforms : x.forms.plain = false → x.forms.compressed = true) :
    Page.Cells.Near (x.cells (x.write out v).1 O) (x.cells (x.write out w).1 O) (x.cells u O) := by
  have hstep := changed_write hv hvt hvl hx.valid
  have hcells := (write_eq hv hvt hvl hx.valid hx.short).2.1
  have hcells' := (write_eq hw hwt hwl hx.valid hx.short).2.1
  have hfree := hb.free_iff hv hvt hvl hx hxs horder hu
  have hdirs : ∀ M, Page.Cells.DirsAgree (v.entry? M) (w.entry? M) (u.entry? M) := fun M =>
    ⟨fun hM => directory_of_first hv hvt hvl hx hxs hu (hstep.directory hM), hb.directory M⟩
  have hlast : ∀ b, (x.after v out O).1.gzip = some (.file b) →
      u.entry? (O ++ x.gzip) ≠ some .directory := by
    intro b hgz hdir
    rw [← hcells] at hgz
    have hfile : ((x.write out v).1.fileAt (O ++ x.gzip)).isSome = true := by
      rw [FileTree.fileAt_eq_some.mpr hgz]
      rfl
    have hkept := isSome_fileAt_runAll (hstep.opens hvt hvl hv) (hstep.wellFormed hvt)
      (hstep.linkFree hvl) hxs (M := O ++ x.gzip)
      (fun y hy he => plain_ne_gzip (hxs y hy) (List.append_cancel_left he).symm) hfile
    rw [← hu, FileTree.fileAt_of_directory hdir] at hkept
    simp at hkept
  rw [hcells, hcells']
  rw [after] at hlast
  rw [after, after]
  cases hway : v.wayRefusal? out O x.dir with
  | none =>
    simp only [hway] at hlast
    rw [hfree.mp hway]
    exact (hb.near hx).write (hdirs _) (hdirs _) hlast hforms
  | some e =>
    cases hway' : w.wayRefusal? out O x.dir with
    | none => exact absurd (hfree.mpr hway') (by simp [hway])
    | some e' => exact hb.near hx

/-- A directory that is made for a page in the replay is one that the first run left. -/
theorem Between.directory_write (hw : w.Opens out O) (hwt : w.WellFormed) (hwl : w.LinkFree)
    {M : Location} (hM : FileTree.entry? (x.write out w).1 M = some .directory) :
    u.entry? M = some .directory := by
  have hfree := hb.free_iff hv hvt hvl hx hxs horder hu
  rcases (changed_write hw hwt hwl hx.valid).made hM with hold | ⟨⟨front, rfl⟩, y, hy, hle⟩
  · exact (hb.directory M).mp hold
  · obtain rfl := List.mem_singleton.mp hy
    have hplace := ne_place_of_prefix (O := O) ((List.prefix_append_right_inj O).mp hle)
    have hmade := (write_eq hv hvt hvl hx.valid hx.short).2.2 _ hplace.1 hplace.2
    have hmade' := (write_eq hw hwt hwl hx.valid hx.short).2.2 _ hplace.1 hplace.2
    by_cases hway : v.wayRefusal? out O y.dir = none
    · rw [if_pos ⟨hway, List.prefix_append _ _, hle⟩] at hmade
      exact directory_of_first hv hvt hvl hx hxs hu hmade
    · rw [if_neg fun hboth => hway (hfree.mpr hboth.1)] at hmade'
      exact (hb.directory _).mp (hmade'.symm.trans hM)

/-- Beside the places of a page, both runs make the same of what stands there. -/
theorem Between.entry_write (hw : w.Opens out O) (hwt : w.WellFormed) (hwl : w.LinkFree)
    {M : Location} (hplain : M ≠ O ++ x.plain) (hgzip : M ≠ O ++ x.gzip) :
    FileTree.entry? (x.write out w).1 M = FileTree.entry? (x.write out v).1 M ∨
      FileTree.entry? (x.write out w).1 M = u.entry? M ∨
      ∃ y : Sheet, y.Valid ∧ M = O ++ y.gzip ∧
        ((x.write out v).1.fileAt (O ++ y.plain)).isSome = true ∧
        u.entry? (O ++ y.plain) = some .directory := by
  have hstep := changed_write hv hvt hvl hx.valid
  have hfree := hb.free_iff hv hvt hvl hx hxs horder hu
  have hmade := (write_eq hv hvt hvl hx.valid hx.short).2.2 M hplain hgzip
  have hmade' := (write_eq hw hwt hwl hx.valid hx.short).2.2 M hplain hgzip
  simp only [← hfree] at hmade'
  split at hmade
  · next hway =>
    rw [if_pos hway] at hmade'
    exact .inl (hmade'.trans hmade.symm)
  · next hway =>
    rw [if_neg hway] at hmade'
    rw [hmade, hmade']
    refine (hb.entry M).imp_right (Or.imp_right ?_)
    rintro ⟨y, hy, rfl, hfile, hdir⟩
    refine ⟨y, hy, rfl, ?_, hdir⟩
    rw [hstep.fileAt]
    · exact hfile
    · rintro ⟨z, hz, he⟩
      obtain rfl := List.mem_singleton.mp hz
      rcases he with he | he
      · exact hgzip (congrArg (O ++ ·) (gzip_inj.mpr (List.append_cancel_left he)))
      · exact plain_ne_gzip hy (List.append_cancel_left he)

/-- Writing a page in both runs keeps the replay between. -/
theorem Between.write (hw : w.Opens out O) (hwt : w.WellFormed) (hwl : w.LinkFree)
    (hforms : x.forms.plain = false → x.forms.compressed = true) :
    Between O (x.write out v).1 (x.write out w).1 u where
  directory M := ⟨hb.directory_write hv hvt hvl hx hxs horder hu hw hwt hwl,
    fun hM => (changed_write hw hwt hwl hx.valid).directory ((hb.directory M).mpr hM)⟩
  kept M hM hfile :=
    isSome_fileAt_write hw hwt hwl hx.valid (hM x hx.valid) (hb.kept M hM hfile)
  entry M := by
    have hnear := hb.near_write hv hvt hvl hx hxs horder hu hw hwt hwl hforms
    by_cases hplain : M = O ++ x.plain
    · subst hplain
      exact hnear.plain.imp_right .inl
    by_cases hgzip : M = O ++ x.gzip
    · subst hgzip
      refine hnear.gzip.imp_right (Or.imp_right ?_)
      rintro ⟨⟨b, hfile⟩, hdir⟩
      exact ⟨x, hx.valid, rfl, by rw [FileTree.fileAt_eq_some.mpr hfile]; rfl, hdir⟩
    exact hb.entry_write hv hvt hvl hx hxs horder hu hw hwt hwl hplain hgzip

end Step

/-- A run over the tree that it left comes to the same tree. -/
theorem Between.runAll_eq (hb : Between O v w u) (hv : v.Opens out O) (hvt : v.WellFormed)
    (hvl : v.LinkFree) (hw : w.Opens out O) (hwt : w.WellFormed) (hwl : w.LinkFree)
    (hproper : ∀ x ∈ xs, x.Proper)
    (hforms : ∀ x ∈ xs, x.forms.plain = false → x.forms.compressed = true)
    (horder : xs.Pairwise fun x y => ¬y.plain <+: x.dir) (hu : u = (runAll out v xs).1)
    (M : Location) : FileTree.entry? (runAll out w xs).1 M = u.entry? M := by
  induction xs generalizing v w with
  | nil =>
    obtain rfl : u = v := hu
    exact hb.eq M
  | cons x xs ih =>
    have hx := hproper x List.mem_cons_self
    have hrest : ∀ y ∈ xs, y.Proper := fun y hy => hproper y (List.mem_cons_of_mem _ hy)
    obtain ⟨hfirst, horder⟩ := List.pairwise_cons.mp horder
    have hstep := changed_write hv hvt hvl hx.valid
    have hstep' := changed_write hw hwt hwl hx.valid
    rw [runAll_cons_fst] at hu ⊢
    have hnext := hb.write hv hvt hvl hx (fun y hy => (hrest y hy).valid) hfirst hu hw hwt hwl
      (hforms x List.mem_cons_self)
    exact ih hnext (hstep.opens hvt hvl hv) (hstep.wellFormed hvt) (hstep.linkFree hvl)
      (hstep'.opens hwt hwl hw) (hstep'.wellFormed hwt) (hstep'.linkFree hwl) hrest
      (fun y hy => hforms y (List.mem_cons_of_mem _ hy)) horder hu

/-! Where the output path is too long. -/

/-- A page below a path that is too long is refused. The attempt at its directory may make some of those
above, if the path is too long only for a slash at its end. -/
theorem write_of_long (habs : Path.isAbsolute out = true)
    (hlong : FileTree.pathLimit < out.utf8ByteSize)
    (hagain : ((t.makeDirAll (Path.trimEnd out)).1.makeDirAll (Path.trimEnd out)).1 =
      (t.makeDirAll (Path.trimEnd out)).1) (hx : x.Valid)
    (hv : v = t ∨ v = (t.makeDirAll (Path.trimEnd out)).1) :
    (x.write out v).1 = t ∨ (x.write out v).1 = (t.makeDirAll (Path.trimEnd out)).1 := by
  have hfile : ∀ m, m = x.name ∨ m = Page.gzipName x.name →
      FileTree.pathLimit < (join (descend out x.dir) m).utf8ByteSize := by
    intro m hm
    have hname : IsName m := by
      rcases hm with rfl | rfl
      · exact hx.name
      · exact Page.isName_gzipName hx.name
    have hle := FileTree.utf8ByteSize_join (descend out x.dir) hname.segment
    have hdir := FileTree.size_descend_of_long hlong hx.dir
    omega
  refine Page.write_induct (I := fun u => u = t ∨ u = (t.makeDirAll (Path.trimEnd out)).1) hx.name
    hv (fun u hu => ?_) (fun u m c hm hu => ?_) (fun u hu => ?_) x.html x.forms
  · by_cases hnil : x.dir = []
    · rw [hnil, Path.descend_nil]
      rcases hu with rfl | rfl
      · exact .inr rfl
      · exact .inr hagain
    · rwa [FileTree.makeDirAll_descend_of_long habs hlong hx.dir hnil]
  · rwa [FileTree.write_of_long (hfile m hm)]
  · rwa [FileTree.removeFile_of_long (hfile x.name (.inl rfl))]

theorem runAll_of_long (habs : Path.isAbsolute out = true)
    (hlong : FileTree.pathLimit < out.utf8ByteSize)
    (hagain : ((t.makeDirAll (Path.trimEnd out)).1.makeDirAll (Path.trimEnd out)).1 =
      (t.makeDirAll (Path.trimEnd out)).1) (hvalid : ∀ x ∈ xs, x.Valid)
    (hv : v = t ∨ v = (t.makeDirAll (Path.trimEnd out)).1) :
    (runAll out v xs).1 = t ∨ (runAll out v xs).1 = (t.makeDirAll (Path.trimEnd out)).1 := by
  induction xs generalizing v with
  | nil => exact hv
  | cons x xs ih =>
    rw [runAll_cons_fst]
    exact ih (fun y hy => hvalid y (List.mem_cons_of_mem _ hy))
      (write_of_long habs hlong hagain (hvalid x List.mem_cons_self) hv)

end Sheet

end Cascade
