import Cascade.Proofs.Site.Sources
/-!
The order of the walk. A walk visits directories in the order of the names that lead to them, so that no
page needs a directory in the place of a page that is written after it, and the pages of one part of
the tree can be written after all others.
-/

namespace Cascade

open Path (IsName join descend)

namespace Plan

theorem tour_sorted {t : FileTree} {small : Bool} {depth : Nat} {dir : String} (ht : t.WellFormed)
    (habs : Path.isAbsolute dir = true) :
    (tour t small depth dir).Pairwise fun ns ms => ns < ms := by
  induction depth generalizing dir with
  | zero => exact .nil
  | succ depth ih =>
    rw [tour, List.pairwise_cons]
    constructor
    · intro ns hns
      obtain ⟨n, -, hns⟩ := List.mem_flatMap.mp hns
      obtain ⟨ms, -, rfl⟩ := List.mem_map.mp hns
      exact List.nil_lt_cons n ms
    · rw [List.pairwise_flatMap]
      constructor
      · intro n hn
        have hname := ((DirectoryContent.mem_children ht habs).mp hn).1
        have habs' : Path.isAbsolute (join dir n) = true := by
          rw [Path.isAbsolute_join dir hname.segment, habs]
        have hbelow := ih habs'
        rw [List.pairwise_map]
        exact hbelow.imp fun h => List.cons_lt_cons_iff.mpr (.inr ⟨rfl, h⟩)
      · refine (DirectoryContent.children_sorted ht _ none small).imp fun {n m} hnm => ?_
        intro ns hns ms hms
        obtain ⟨ns, -, rfl⟩ := List.mem_map.mp hns
        obtain ⟨ms, -, rfl⟩ := List.mem_map.mp hms
        exact List.cons_lt_cons_iff.mpr (.inl hnm)

theorem lt_append_cons (ns : List String) (n : String) (ms : List String) : ns < ns ++ n :: ms := by
  have h : ns ++ [] < ns ++ n :: ms := List.append_left_lt (List.nil_lt_cons n ms)
  rwa [List.append_nil] at h

theorem lt_append_html (n : String) : n < n ++ ".html" := by
  rw [String.lt_iff_toList_lt, String.toList_append]
  have h : n.toList ++ [] < n.toList ++ '.' :: ['h', 't', 'm', 'l'] :=
    List.append_left_lt (List.nil_lt_cons _ _)
  rwa [List.append_nil] at h

/-- The directory of a page is on the way to the directory it is the page of. -/
theorem spot_prefix (flat : Bool) (ns : List String) : (spot flat ns).1 <+: ns := by
  rcases List.eq_nil_or_concat' ns with rfl | ⟨front, n, rfl⟩
  · simp
  · cases flat with
    | false => simp
    | true => simp

/-- What lies below the place of a page is visited after the directory of the page. -/
theorem lt_of_spot_prefix {flat : Bool} {ms ns : List String}
    (h : (spot flat ms).1 ++ [(spot flat ms).2] <+: ns) : ms < ns := by
  have hindex : ∀ ks : List String, ks ++ ["index.html"] <+: ns → ks < ns := by
    rintro ks ⟨back, rfl⟩
    rw [List.append_assoc]
    exact lt_append_cons ks _ back
  rcases List.eq_nil_or_concat' ms with rfl | ⟨front, m, rfl⟩
  · rw [spot_nil] at h
    exact hindex [] h
  · cases flat with
    | false => exact hindex _ h
    | true =>
      rw [spot_true] at h
      obtain ⟨back, rfl⟩ := h
      rw [List.append_assoc]
      exact List.append_left_lt (List.cons_lt_cons_iff.mpr (.inl (lt_append_html m)))

/-- Of two directories with one place for their pages, the later is below the earlier. -/
theorem prefix_of_spot_eq {flat flat' : Bool} {ns ms : List String} (hlt : ns < ms)
    (h : (spot flat ns).1 ++ [(spot flat ns).2] = (spot flat' ms).1 ++ [(spot flat' ms).2]) :
    ns <+: ms := by
  rcases List.eq_nil_or_concat' ns with rfl | ⟨front, n, rfl⟩
  · exact List.nil_prefix
  · rcases List.eq_nil_or_concat' ms with rfl | ⟨front', m, rfl⟩
    · exact absurd hlt (List.not_lt_nil _)
    · cases flat with
      | false =>
        cases flat' with
        | false => exact absurd (List.append_inj_left' h rfl) (ne_of_lt hlt)
        | true =>
          rw [spot_false, spot_true] at h
          have hfront : front ++ [n] = front' := List.append_inj_left' h rfl
          rw [hfront]
          exact List.prefix_append _ _
      | true =>
        cases flat' with
        | false =>
          rw [spot_false, spot_true] at h
          have hfront : front = front' ++ [m] := List.append_inj_left' h rfl
          rw [hfront] at hlt
          exact absurd (lt_append_cons (front' ++ [m]) n []) (lt_asymm hlt)
        | true =>
          rw [spot_true, spot_true] at h
          have hfront : front = front' := List.append_inj_left' h rfl
          have hname : n = m := by simpa using List.append_inj_right' h rfl
          exact absurd (by rw [hfront, hname]) (ne_of_lt hlt)

end Plan

namespace Site

variable {s : Site} {t : FileTree}

theorem tour_sorted (s : Site) (ht : t.WellFormed) :
    (s.tour t).Pairwise fun ns ms => ns < ms :=
  Plan.tour_sorted ((s.grown_ground ht).wellFormed ht) (s.isAbsolute_root ht)

/-- The place of the page of the directory at `ns`. -/
def spot (s : Site) (t : FileTree) (ns : List String) : List String × String :=
  Plan.spot (s.options.flatten && (s.children t ns).isEmpty) ns

theorem spot_of_sheet? {ns : List String} {x : Sheet} (hx : s.sheet? t ns = some x) :
    s.spot t ns = (x.dir, x.name) := by
  obtain ⟨w, hw, rfl⟩ := Option.map_eq_some_iff.mp hx
  have hsame : s.children t ns = w.children (s.ground t) s.options.minify := by
    rw [Plan.Visit.children, (Plan.paths_of_follow? hw).1]
    rfl
  rw [spot, hsame]
  rfl

theorem plain_of_sheet? {ns : List String} {x : Sheet} (hx : s.sheet? t ns = some x) :
    x.plain = (s.spot t ns).1 ++ [(s.spot t ns).2] := by
  rw [spot_of_sheet? hx]
  rfl

/-- No page needs a directory in the place of a later page. -/
theorem sheets_order (ht : t.WellFormed) (scope : List String) :
    (s.sheets t scope).Pairwise fun x y => ¬y.plain <+: x.dir := by
  rw [sheets, List.pairwise_filterMap]
  refine ((s.tour_sorted ht).filter _).imp fun {ns ms} hlt x hx y hy hle => ?_
  have hdir : x.dir <+: ns := by
    have hspot := Plan.spot_prefix (s.options.flatten && (s.children t ns).isEmpty) ns
    rwa [← spot, spot_of_sheet? hx] at hspot
  rw [plain_of_sheet? hy] at hle
  exact lt_asymm hlt (Plan.lt_of_spot_prefix (hle.trans hdir))

section Congr

variable {t' : FileTree} {S : Location} {ns : List String} (ht : t.WellFormed) (ht' : t'.WellFormed)
  (hl : t.LinkFree) (hl' : t'.LinkFree) (hcwd : t'.cwd = t.cwd)
  (hS : (s.ground t).Opens (s.absolute t.cwdPath).src S)
  (hS' : (s.ground t').Opens (s.absolute t'.cwdPath).src S)

include ht ht' hl hl' hcwd hS hS'

theorem opens_congr (h : SameDirs (s.ground t) (s.ground t') S) (hns : ∀ n ∈ ns, IsName n) :
    (s.ground t).Opens (descend (s.absolute t.cwdPath).src ns) (S ++ ns) ↔
      (s.ground t').Opens (descend (s.absolute t'.cwdPath).src ns) (S ++ ns) := by
  have hsrc : (s.absolute t'.cwdPath).src = (s.absolute t.cwdPath).src := by
    simp only [FileTree.cwdPath, hcwd]
  rw [hsrc] at hS' ⊢
  rw [hS.descend_iff ((s.grown_ground ht).wellFormed ht) ((s.grown_ground ht).linkFree hl) hns,
    hS'.descend_iff ((s.grown_ground ht').wellFormed ht') ((s.grown_ground ht').linkFree hl') hns]
  simp only [h _]

/-- The walk goes the same way through the same directories. -/
theorem tour_congr (h : SameDirs (s.ground t) (s.ground t') S) : s.tour t = s.tour t' := by
  refine (s.tour_sorted ht).eq_of_mem_iff (s.tour_sorted ht') fun ns => ?_
  rw [mem_tour ht hl hS, mem_tour ht' hl' hS']
  exact and_congr_right fun hns => opens_congr ht ht' hl hl' hcwd hS hS' h fun n hn => (hns n hn).1

theorem children_congr (h : SameDirs (s.ground t) (s.ground t') S) (hns : ∀ n ∈ ns, IsName n) :
    s.children t ns = s.children t' ns := by
  have hsorted : ∀ u : FileTree, u.WellFormed → (s.children u ns).Pairwise fun a b => a < b :=
    fun u hu =>
      DirectoryContent.children_sorted ((s.grown_ground hu).wellFormed hu) _ none s.options.minify
  refine (hsorted t ht).eq_of_mem_iff (hsorted t' ht') fun n => ?_
  rw [mem_children ht hl hS hns, mem_children ht' hl' hS' hns]
  exact and_congr_right fun hn => and_congr_right fun _ =>
    opens_congr ht ht' hl hl' hcwd hS hS' h (Path.isName_concat hns hn)

/-- Trees that are the same below the source have the same pages. -/
theorem sheets_congr
    (h : ∀ M, FileTree.entry? (s.ground t) (S ++ M) = FileTree.entry? (s.ground t') (S ++ M))
    (scope : List String) : s.sheets t scope = s.sheets t' scope := by
  have hdirs : SameDirs (s.ground t) (s.ground t') S := fun M => by rw [h]
  rw [sheets, sheets, ← tour_congr ht ht' hl hl' hcwd hS hS' hdirs]
  refine List.filterMap_congr fun ns hns => ?_
  have hnames := ((mem_tour ht hl hS).mp (List.mem_filter.mp hns).1).1
  refine sheet?_congr ht ht' hl hl' hcwd hS hS' (.of_entries h ns) fun _ _ => ?_
  rw [children_congr ht ht' hl hl' hcwd hS hS' hdirs fun n hn => (hnames n hn).1]

end Congr

end Site

end Cascade
