import Cascade.Proofs.FileTree.Shut
import Cascade.Proofs.Page.Cells
/-!
Runs over pages that are apart from each other: none is in the place of another, nor on the way to it.
Then what each of them comes to depends on the tree at the start alone, so that their order does not
matter, and the run once more changes nothing.
-/

namespace Cascade

open Path (IsName join descend)

namespace Sheet

/-- Pages in different places, none of which is on the way to the other. -/
structure Apart (x y : Sheet) : Prop where
  ne : x.plain ≠ y.plain
  before : ¬x.plain <+: y.dir ∧ ¬x.gzip <+: y.dir
  behind : ¬y.plain <+: x.dir ∧ ¬y.gzip <+: x.dir

theorem Apart.symm {x y : Sheet} (h : Apart x y) : Apart y x := ⟨h.ne.symm, h.behind, h.before⟩

/-- What goes wrong with a page. -/
def error? (x : Sheet) (t : FileTree) (out : String) (O : Location) : Option BuildError :=
  match (x.after t out O).2 with
  | .ok () => none
  | .error e => some e

variable {t : FileTree} {out : String} {O : Location} {x y : Sheet} {xs : List Sheet}

/-- A page that is written once more comes to the same. -/
theorem after_after {u : FileTree}
    (hway : u.wayRefusal? out O x.dir = t.wayRefusal? out O x.dir)
    (hcells : x.cells u O = (x.after t out O).1) : x.after u out O = x.after t out O := by
  rw [after, hway]
  rw [after] at hcells ⊢
  cases hrefusal : t.wayRefusal? out O x.dir with
  | some e =>
    simp only [hrefusal] at hcells
    simp only [hcells]
  | none =>
    simp only [hrefusal] at hcells
    simp only [hcells, Page.Cells.write_write]

/-- Pages whose directories can have their names. -/
structure Proper (x : Sheet) : Prop where
  valid : x.Valid
  short : ∀ n ∈ x.dir, FileTree.IsShort n

section Step

variable (h : t.Opens out O) (ht : t.WellFormed) (hl : t.LinkFree)

include h ht hl

/-- What a page comes to does not depend on a page that is apart from it. -/
theorem after_write (hx : x.Proper) (hy : y.Valid) (hxy : Apart x y) :
    (x.write out t).1.wayRefusal? out O y.dir = t.wayRefusal? out O y.dir ∧
      y.after (x.write out t).1 out O = y.after t out O := by
  have hentry := (write_eq h ht hl hx.valid hx.short).2.2
  have hcells : y.cells (x.write out t).1 O = y.cells t O := by
    have hplain := hentry (O ++ y.plain)
      (by simpa using hxy.ne.symm) (by simpa using plain_ne_gzip hy)
    have hgzip := hentry (O ++ y.gzip)
      (by simpa using (plain_ne_gzip hx.valid).symm)
      (by simpa [gzip_inj] using hxy.ne.symm)
    rw [if_neg (by simp [hxy.behind])] at hplain hgzip
    rw [cells, cells, hplain, hgzip]
  have hway : (x.write out t).1.wayRefusal? out O y.dir = t.wayRefusal? out O y.dir := by
    rw [FileTree.wayRefusal?, FileTree.wayRefusal?]
    congr 1
    refine FileTree.fileOnWay?_congr fun front _ hfront => (changed_write h ht hl hx.valid).fileAt ?_
    rintro ⟨z, hz, he⟩
    obtain rfl := List.mem_singleton.mp hz
    simp only [List.append_cancel_left_eq] at he
    rcases he with rfl | rfl
    · exact hxy.before.1 hfront
    · exact hxy.before.2 hfront
  exact ⟨hway, by rw [after, after, hway, hcells]⟩

end Step

/-- What a run over pages comes to, by the tree at its start. -/
structure Runs (out : String) (O : Location) (xs : List Sheet) (t u : FileTree)
    (errors : List BuildError) : Prop where
  changed : FileTree.Changed (NeedsDir O xs) (HasPlace O xs) t u
  errors : errors = xs.filterMap fun x => x.error? t out O
  cells : ∀ x ∈ xs, x.cells u O = (x.after t out O).1
  entry : ∀ M, ¬HasPlace O xs M → u.entry? M =
    if ∃ x ∈ xs, t.wayRefusal? out O x.dir = none ∧ O <+: M ∧ M <+: O ++ x.dir then some .directory
    else t.entry? M

theorem runs (h : t.Opens out O) (ht : t.WellFormed) (hl : t.LinkFree)
    (hproper : ∀ x ∈ xs, x.Proper) (hapart : xs.Pairwise Apart) :
    Runs out O xs t (runAll out t xs).1 (runAll out t xs).2 := by
  induction xs generalizing t with
  | nil => exact ⟨.refl _ _ t, rfl, by simp, by simp [runAll]⟩
  | cons x xs ih =>
    have hx := hproper x List.mem_cons_self
    have hxs : ∀ y ∈ xs, y.Proper := fun y hy => hproper y (List.mem_cons_of_mem _ hy)
    obtain ⟨hfirst, hrest⟩ := List.pairwise_cons.mp hapart
    have hchanged := changed_write h ht hl hx.valid
    obtain ⟨hresult, hcells, hentry⟩ := write_eq h ht hl hx.valid hx.short
    have hruns := ih (hchanged.opens ht hl h) (hchanged.wellFormed ht) (hchanged.linkFree hl) hxs hrest
    have hsame : ∀ y ∈ xs, _ := fun y hy =>
      after_write h ht hl hx (hxs y hy).valid (hfirst y hy)
    have herrors : (runAll out t (x :: xs)).1 = (runAll out (x.write out t).1 xs).1 ∧
        (runAll out t (x :: xs)).2 =
          (x.error? t out O).toList ++ (runAll out (x.write out t).1 xs).2 := by
      rw [runAll, error?, ← hresult]
      split <;> next hwrite => simp [hwrite]
    rw [herrors.1, herrors.2]
    refine ⟨changed_cons hchanged hruns.changed, ?_, fun y hy => ?_, fun M hM => ?_⟩
    · rw [List.filterMap_cons, hruns.errors]
      have hlater : (xs.filterMap fun y => y.error? (x.write out t).1 out O) =
          xs.filterMap fun y => y.error? t out O :=
        List.filterMap_congr fun y hy => by rw [error?, error?, (hsame y hy).2]
      rw [hlater]
      cases x.error? t out O <;> rfl
    · rcases List.mem_cons.mp hy with rfl | hy
      · -- the pages behind it leave the places of the first as they are
        have hstay : ∀ L, (∀ z ∈ xs, L ≠ z.plain ∧ L ≠ z.gzip ∧ ¬L <+: z.dir) →
            FileTree.entry? (runAll out (y.write out t).1 xs).1 (O ++ L) =
              FileTree.entry? (y.write out t).1 (O ++ L) := by
          intro L hL
          rw [hruns.entry, if_neg]
          · rintro ⟨z, hz, -, -, hle⟩
            exact (hL z hz).2.2 ((List.prefix_append_right_inj O).mp hle)
          · rintro ⟨z, hz, he⟩
            simp only [List.append_cancel_left_eq] at he
            exact he.elim (hL z hz).1 (hL z hz).2.1
        have hplain := hstay y.plain fun z hz =>
          ⟨(hfirst z hz).ne, plain_ne_gzip hx.valid, (hfirst z hz).before.1⟩
        have hgzip := hstay y.gzip fun z hz =>
          ⟨(plain_ne_gzip (hxs z hz).valid).symm, fun he => (hfirst z hz).ne (gzip_inj.mp he),
            (hfirst z hz).before.2⟩
        rw [← hcells, cells, cells, hplain, hgzip]
      · rw [hruns.cells y hy, (hsame y hy).2]
    · have hnot : M ≠ O ++ x.plain ∧ M ≠ O ++ x.gzip :=
        ⟨fun he => hM ⟨x, List.mem_cons_self, .inl he⟩, fun he => hM ⟨x, List.mem_cons_self, .inr he⟩⟩
      have hlater : ¬HasPlace O xs M := by
        rintro ⟨y, hy, he⟩
        exact hM ⟨y, List.mem_cons_of_mem _ hy, he⟩
      rw [hruns.entry M hlater, hentry M hnot.1 hnot.2]
      simp only [List.exists_mem_cons_iff]
      have hways : (∃ y ∈ xs, (x.write out t).1.wayRefusal? out O y.dir = none ∧ O <+: M ∧
          M <+: O ++ y.dir) ↔ ∃ y ∈ xs, t.wayRefusal? out O y.dir = none ∧ O <+: M ∧
          M <+: O ++ y.dir :=
        exists_congr fun y => and_congr_right fun hy => by rw [(hsame y hy).1]
      simp only [hways]
      by_cases hlast : ∃ y ∈ xs, t.wayRefusal? out O y.dir = none ∧ O <+: M ∧ M <+: O ++ y.dir
      · rw [if_pos hlast, if_pos (.inr hlast)]
      · simp only [hlast, if_false, or_false]

variable (h : t.Opens out O) (ht : t.WellFormed) (hl : t.LinkFree) (hproper : ∀ x ∈ xs, x.Proper)
  (hapart : xs.Pairwise Apart)

include h ht hl hproper hapart

/-- The order of the pages makes no difference. -/
theorem runAll_perm {ys : List Sheet} (hperm : ys.Perm xs) :
    (runAll out t ys).2.Perm (runAll out t xs).2 ∧
      ∀ M, FileTree.entry? (runAll out t ys).1 M = FileTree.entry? (runAll out t xs).1 M := by
  have hruns := runs h ht hl hproper hapart
  have hruns' : Runs out O ys t (runAll out t ys).1 (runAll out t ys).2 :=
    runs h ht hl (fun x hx => hproper x (hperm.mem_iff.mp hx))
      ((hperm.pairwise_iff fun {x y} => Apart.symm).mpr hapart)
  refine ⟨?_, fun M => ?_⟩
  · rw [hruns.errors, hruns'.errors]
    exact hperm.filterMap _
  · by_cases hM : HasPlace O xs M
    · obtain ⟨x, hx, he⟩ := hM
      have hcells := (hruns'.cells x (hperm.mem_iff.mpr hx)).trans (hruns.cells x hx).symm
      rw [cells, cells, Page.Cells.mk.injEq] at hcells
      rcases he with rfl | rfl
      · exact hcells.1
      · exact hcells.2
    · have hM' : ¬HasPlace O ys M := by
        rintro ⟨x, hx, he⟩
        exact hM ⟨x, hperm.mem_iff.mp hx, he⟩
      rw [hruns.entry M hM, hruns'.entry M hM']
      simp only [hperm.mem_iff]

omit h ht hl hproper in
/-- No page is on the way to a page. -/
theorem not_prefix_of_apart (hx : x ∈ xs) (hy : y ∈ xs) :
    ¬x.plain <+: y.dir ∧ ¬x.gzip <+: y.dir := by
  have hself : ∀ z ∈ xs, ¬z.plain <+: z.dir ∧ ¬z.gzip <+: z.dir := by
    intro z _
    constructor <;>
    · intro hle
      have hlength := hle.length_le
      simp only [plain, gzip, List.length_append, List.length_singleton] at hlength
      omega
  exact List.Pairwise.forall_of_forall_of_flip hself (hapart.imp fun hab => hab.before)
    (hapart.imp fun hab => hab.behind) hx hy

/-- The run once more changes nothing, and the same goes wrong. -/
theorem runAll_again :
    (runAll out (runAll out t xs).1 xs).2 = (runAll out t xs).2 ∧
      ∀ M, FileTree.entry? (runAll out (runAll out t xs).1 xs).1 M =
        FileTree.entry? (runAll out t xs).1 M := by
  have hruns := runs h ht hl hproper hapart
  have hagain := runs (hruns.changed.opens ht hl h) (hruns.changed.wellFormed ht)
    (hruns.changed.linkFree hl) hproper hapart
  have hway : ∀ x ∈ xs, (runAll out t xs).1.wayRefusal? out O x.dir = t.wayRefusal? out O x.dir := by
    intro x hx
    rw [FileTree.wayRefusal?, FileTree.wayRefusal?]
    congr 1
    refine FileTree.fileOnWay?_congr fun front _ hfront => hruns.changed.fileAt ?_
    rintro ⟨y, hy, he⟩
    simp only [List.append_cancel_left_eq] at he
    rcases he with rfl | rfl
    · exact (not_prefix_of_apart hapart hy hx).1 hfront
    · exact (not_prefix_of_apart hapart hy hx).2 hfront
  have hafter : ∀ x ∈ xs, x.after (runAll out t xs).1 out O = x.after t out O := fun x hx =>
    after_after (hway x hx) (hruns.cells x hx)
  refine ⟨?_, fun M => ?_⟩
  · rw [hagain.errors]
    conv_rhs => rw [hruns.errors]
    exact List.filterMap_congr fun x hx => by rw [error?, error?, hafter x hx]
  · by_cases hM : HasPlace O xs M
    · obtain ⟨x, hx, he⟩ := hM
      have hcells := (hagain.cells x hx).trans
        ((congrArg Prod.fst (hafter x hx)).trans (hruns.cells x hx).symm)
      rw [cells, cells, Page.Cells.mk.injEq] at hcells
      rcases he with rfl | rfl
      · exact hcells.1
      · exact hcells.2
    · rw [hagain.entry M hM]
      split
      · next hmade =>
        obtain ⟨x, hx, hnone, hle⟩ := hmade
        rw [hruns.entry M hM, if_pos ⟨x, hx, (hway x hx) ▸ hnone, hle⟩]
      · rfl

/-! Where no directory can be made for the pages. -/

omit h ht hl hproper hapart in
theorem write_of_shut (hout : t.Shut (Path.trimEnd out)) (ht : t.WellFormed) (hl : t.LinkFree)
    (habs : Path.isAbsolute out = true) (hx : x.Valid) : ∃ e, x.write out t = (t, .error e) := by
  obtain ⟨e, hmake⟩ := hout.makeDirAll_descend ht hl habs hx.dir
  exact ⟨_, write_of_not_made hx.name hmake⟩

omit h ht hl hproper hapart in
/-- Pages that are refused leave the tree as it is. -/
theorem runAll_of_refused {refused : Sheet → BuildError}
    (h : ∀ x ∈ xs, x.write out t = (t, .error (refused x))) :
    runAll out t xs = (t, xs.map refused) := by
  induction xs with
  | nil => rfl
  | cons x xs ih =>
    rw [runAll, h x List.mem_cons_self]
    simp only [ih fun y hy => h y (List.mem_cons_of_mem _ hy), List.map_cons]

end Sheet

end Cascade
