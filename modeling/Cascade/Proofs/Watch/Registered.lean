import Cascade.Proofs.FileTree.Unlinked
import Cascade.Proofs.Site.Steady
import Cascade.Proofs.Watch.Edits
import Cascade.Proofs.Watch.Names
import Cascade.Watch.Live
/-!
Which directories are watched. A build goes on through links to directories, and the search for what is to
be watched does not: of the directories that a build visits, those are watched that it reaches through no
link.
-/

namespace Cascade

open Path (IsName join descend)

namespace Watcher

section Item

variable (t : FileTree) (wanted : List String → Bool) (root : String)

/-- What is found at a path and below it, one name after another. The search goes on below a directory, and
below the path it starts from whatever stands there. -/
inductive Item : List String → Entry → Prop
  | start {L : Location} {e : Entry} (h : t.resolve false root = .ok (.found L e))
      (hwanted : wanted [] = true) : Item [] e
  | child {ns : List String} {e e' : Entry} {L : Location} {n : String} (h : Item ns e)
      (hgo : e = .directory ∨ ns = [])
      (hopen : t.resolve true (descend root ns) = .ok (.found L .directory))
      (hentry : t.entry? (L ++ [n]) = some e') (hwanted : wanted (ns ++ [n]) = true) :
      Item (ns ++ [n]) e'

end Item

/-- The system lists each item, and no path is watched at which nothing is. -/
structure Lawful (w : Watcher) : Prop where
  mem_items {t : FileTree} {wanted : List String → Bool} {root : String} {ns : List String}
    {e : Entry} (ht : t.WellFormed) (habs : Path.isAbsolute root = true) :
    (ns, e) ∈ w.items t wanted root ↔ Item t wanted root ns e
  exists_of_watched {t : FileTree} {path : String} (h : w.refusal? t path = none) :
    t.pathExists path = true

variable {w : Watcher} {t : FileTree} {wanted : List String → Bool} {root : String}
  {ns : List String} {e : Entry}

section Names

variable (ht : t.WellFormed)

include ht

theorem Item.isName (h : Item t wanted root ns e) : ∀ n ∈ ns, IsName n := by
  induction h with
  | start => simp
  | child _ _ _ hentry _ ih =>
    exact Path.isName_concat ih (ht.names (by rw [hentry]; simp) _ (by simp))

theorem Item.opens (habs : Path.isAbsolute root = true) (h : Item t wanted root ns e) {L : Location}
    (hopen : t.resolve true (descend root ns) = .ok (.found L .directory)) :
    t.Opens (descend root ns) L :=
  ⟨(Path.isAbsolute_descend root (h.isName ht)).trans habs, hopen⟩

end Names

/-! The file tree as it is listed. -/

/-- What is listed below an item that the search goes on from are items. -/
theorem item_of_mem_itemsBelow {depth : Nat} {ms : List String} {e' : Entry}
    (h : Item t wanted root ns e) (hgo : e = .directory ∨ ns = [])
    (hmem : (ms, e') ∈ itemsBelow t wanted root depth ns) : Item t wanted root ms e' := by
  induction depth generalizing ns e with
  | zero => simp [itemsBelow] at hmem
  | succ depth ih =>
    rw [itemsBelow] at hmem
    split at hmem
    · next L hopen =>
      obtain ⟨n, -, hmem⟩ := List.mem_flatMap.mp hmem
      split at hmem
      · next x hentry =>
        split at hmem
        · next hwanted =>
          have hchild : Item t wanted root (ns ++ [n]) x := .child h hgo hopen hentry hwanted
          rcases List.mem_cons.mp hmem with heq | hmem
          · obtain ⟨rfl, rfl⟩ := Prod.mk.inj heq
            exact hchild
          · split at hmem
            · next hx => exact ih hchild (.inl hx) hmem
            · simp at hmem
        · simp at hmem
      · simp at hmem
    · simp at hmem

/-- A child is listed, and what is listed below it. -/
theorem mem_itemsBelow_child (depth : Nat) {L : Location} {n : String}
    (hopen : t.resolve true (descend root ns) = .ok (.found L .directory))
    (hentry : t.entry? (L ++ [n]) = some e) (hwanted : wanted (ns ++ [n]) = true) :
    (ns ++ [n], e) ∈ itemsBelow t wanted root (depth + 1) ns ∧
      (e = .directory → itemsBelow t wanted root depth (ns ++ [n]) ⊆
        itemsBelow t wanted root (depth + 1) ns) := by
  have hn : n ∈ t.childNames L := (t.mem_childNames L n).mpr (by simp [hentry])
  have hrow : ∀ x, x ∈ (ns ++ [n], e) ::
      (if e = .directory then itemsBelow t wanted root depth (ns ++ [n]) else []) →
      x ∈ itemsBelow t wanted root (depth + 1) ns := by
    intro x hx
    rw [itemsBelow, show ns.foldl Path.join root = descend root ns from rfl, hopen]
    refine List.mem_flatMap.mpr ⟨n, hn, ?_⟩
    simp only [hentry, hwanted, if_true]
    exact hx
  refine ⟨hrow _ List.mem_cons_self, ?_⟩
  rintro rfl
  exact fun x hx => hrow x (List.mem_cons_of_mem _ (by simpa using hx))

/-- An item is listed, and so is what is below it as far down as the search goes. -/
theorem mem_items_standard (ht : t.WellFormed) (habs : Path.isAbsolute root = true)
    (h : Item t wanted root ns e) : (ns, e) ∈ standard.items t wanted root ∧
      (e = .directory ∨ ns = [] → itemsBelow t wanted root (Plan.depthLimit - ns.length) ns ⊆
        standard.items t wanted root) := by
  induction h with
  | start h hwanted =>
    simp only [standard, h, hwanted, if_true]
    exact ⟨List.mem_cons_self, fun _ => List.subset_cons_self _ _⟩
  | @child ns e e' L n hitem hgo hopen hentry hwanted ih =>
    have hdeep : ns.length < Plan.depthLimit :=
      Plan.length_lt_depthLimit habs (hitem.isName ht) (hitem.opens ht habs hopen).isDir
    obtain ⟨depth, hdepth⟩ : ∃ depth, Plan.depthLimit - ns.length = depth + 1 :=
      ⟨_, (Nat.succ_pred_eq_of_pos (by omega)).symm⟩
    have hlisted := ih.2 hgo
    rw [hdepth] at hlisted
    obtain ⟨hmem, hbelow⟩ := mem_itemsBelow_child depth hopen hentry hwanted
    refine ⟨hlisted hmem, ?_⟩
    rintro (he | hnil)
    · have hrest : Plan.depthLimit - (ns ++ [n]).length = depth := by
        rw [List.length_append, List.length_singleton]
        omega
      rw [hrest]
      exact List.Subset.trans (hbelow he) hlisted
    · simp at hnil

theorem standard_lawful : standard.Lawful where
  mem_items := by
    intro t wanted root ns e ht habs
    refine ⟨fun hmem => ?_, fun h => (mem_items_standard ht habs h).1⟩
    simp only [standard] at hmem
    split at hmem
    · next L x hroot =>
      split at hmem
      · next hwanted =>
        have hstart : Item t wanted root [] x := .start hroot hwanted
        rcases List.mem_cons.mp hmem with heq | hmem
        · obtain ⟨rfl, rfl⟩ := Prod.mk.inj heq
          exact hstart
        · exact item_of_mem_itemsBelow hstart (.inr rfl) hmem
      · simp at hmem
    · simp at hmem
  exists_of_watched := by
    intro t path h
    simpa [standard] using h

/-! What is watched. -/

theorem wants_concat {n : String} (hn : n.toList.head? ≠ some '.') (ns : List String) :
    wants (ns ++ [n]) = true := by
  simp [wants, hn]

/-- Where each directory that is found can be watched, no link is on the way to any of them. -/
theorem Item.unlinked (ht : t.WellFormed) (habs : Path.isAbsolute root = true)
    (hall : ∀ ms, Item t wanted root ms .directory → t.pathExists (descend root ms) = true)
    (h : Item t wanted root ns e) (he : e = .directory) : t.Unlinked root ns := by
  induction h with
  | @start L e h _ => exact FileTree.unlinked_nil.mpr ⟨L, he ▸ h⟩
  | @child ns e e' L n hitem hgo hopen hentry hwanted ih =>
    subst he
    have hchild : Item t wanted root (ns ++ [n]) .directory :=
      .child hitem hgo hopen hentry hwanted
    have hn : IsName n := hchild.isName ht n (by simp)
    have hexists := hall _ hchild
    rw [Path.descend_concat] at hexists
    exact FileTree.unlinked_concat.mpr
      ⟨((hitem.opens ht habs hopen).hasDirectory_join_iff hn).mpr ⟨hexists, hentry⟩,
        fun hne => ih (hgo.resolve_right hne)⟩

/-- What is found below a directory stands where its names say. -/
theorem Item.entry (ht : t.WellFormed) {L : Location} (hroot : t.Opens root L)
    (hplain : t.HasDirectory root) (h : Item t wanted root ns e) :
    t.entry? (L ++ ns) = some e ∧ (e = .directory ∨ ns = [] →
      ∀ M, t.Opens (descend root ns) M → M = L ++ ns) := by
  induction h with
  | start h _ =>
    obtain ⟨K, hK⟩ := hplain
    rw [hK] at h
    obtain ⟨-, rfl⟩ : K = _ ∧ Entry.directory = _ := by simpa using h
    rw [List.append_nil]
    exact ⟨hroot.entry ht, fun _ M hM => hM.unique hroot⟩
  | @child ns e e' K n hitem hgo hopen hentry hwanted ih =>
    have hparent := hitem.opens ht hroot.absolute hopen
    obtain rfl := ih.2 hgo K hparent
    rw [← List.append_assoc]
    refine ⟨hentry, fun he M hM => ?_⟩
    obtain rfl : e' = .directory := he.resolve_right (by simp)
    have hn : IsName n := ht.names (by rw [hentry]; simp) n (by simp)
    have hresolve := hM.resolve
    rw [Path.descend_concat,
      hparent.resolve_join_of_entry hn fun target => by rw [hentry]; simp] at hresolve
    cases hroom : FileTree.refusal? (join (descend root ns) n) n with
    | some e => simp [hroom] at hresolve
    | none =>
      simp only [hroom, FileTree.placeAt, hentry, Except.ok.injEq, FileTree.Place.found.injEq]
        at hresolve
      exact hresolve.1.symm

/-- A directory is found if no link is on the way to it and no name on the way is hidden. -/
theorem item_of_unlinked (ht : t.WellFormed) (habs : Path.isAbsolute root = true)
    (hns : ∀ n ∈ ns, IsName n ∧ n.toList.head? ≠ some '.') (h : t.Unlinked root ns) :
    Item t wants root ns .directory := by
  induction ns using List.reverseRecOn with
  | nil =>
    obtain ⟨L, hL⟩ := FileTree.unlinked_nil.mp h
    exact .start hL rfl
  | append_singleton front n ih =>
    obtain ⟨hn, hhidden⟩ := hns n (by simp)
    have hfront : ∀ m ∈ front, IsName m ∧ m.toList.head? ≠ some '.' := fun m hm =>
      hns m (List.mem_append_left _ hm)
    have habs' : Path.isAbsolute (descend root front) = true :=
      (Path.isAbsolute_descend root fun m hm => (hfront m hm).1).trans habs
    obtain ⟨hdir, hway⟩ := FileTree.unlinked_concat.mp h
    have ⟨K, hK⟩ := hdir
    obtain ⟨L, -, hL, -⟩ := FileTree.Opens.of_resolve_step ht habs' hn.segment hn.not_idle hK
    obtain ⟨e, hitem, hgo⟩ : ∃ e, Item t wants root front e ∧ (e = .directory ∨ front = []) := by
      by_cases hnil : front = []
      · subst hnil
        obtain ⟨M, e, hM⟩ := hL.exists_resolve
        exact ⟨e, .start hM rfl, .inr rfl⟩
      · exact ⟨.directory, ih hfront (hway hnil), .inl rfl⟩
    exact .child hitem hgo hL.resolve ((hL.hasDirectory_join_iff hn).mp hdir).2
      (wants_concat hhidden front)

theorem mem_directories (hw : w.Lawful) (ht : t.WellFormed) (habs : Path.isAbsolute root = true)
    {path : String} : path ∈ w.directories t root ↔
      ∃ ns, Item t wants root ns .directory ∧ descend root ns = path := by
  simp only [directories, List.mem_map, List.mem_filter, decide_eq_true_eq, Prod.exists]
  constructor
  · rintro ⟨ns, e, ⟨hmem, rfl⟩, hpath⟩
    exact ⟨ns, (hw.mem_items ht habs).mp hmem, hpath⟩
  · rintro ⟨ns, hitem, hpath⟩
    exact ⟨ns, _, ⟨(hw.mem_items ht habs).mpr hitem, rfl⟩, hpath⟩

/-- Where nothing is refused all the paths are watched. -/
theorem watchAll_of_none {watched paths : List String}
    (h : (w.watchAll t watched paths).2 = none) :
    (w.watchAll t watched paths).1 = watched ++ paths ∧ ∀ p ∈ paths, w.refusal? t p = none := by
  induction paths generalizing watched with
  | nil => simp [watchAll]
  | cons path paths ih =>
    rw [watchAll] at h ⊢
    cases hpath : w.refusal? t path with
    | some cause => simp [hpath] at h
    | none =>
      simp only [hpath] at h ⊢
      obtain ⟨hwatched, hrest⟩ := ih h
      rw [hwatched]
      simpa [hpath] using hrest

theorem watchAll_snd_eq_none {watched paths : List String}
    (h : ∀ p ∈ paths, w.refusal? t p = none) : (w.watchAll t watched paths).2 = none := by
  induction paths generalizing watched with
  | nil => rfl
  | cons path paths ih =>
    rw [watchAll, h path List.mem_cons_self]
    exact ih fun p hp => h p (List.mem_cons_of_mem _ hp)

/-- Nothing is refused where each directory that is found can be reached by its path. -/
theorem standard_watchTree (ht : t.WellFormed) (habs : Path.isAbsolute root = true)
    (h : ∀ ns, Item t wants root ns .directory → t.pathExists (descend root ns) = true)
    (watched : List String) : (standard.watchTree t watched root).2 = none := by
  refine watchAll_snd_eq_none fun p hp => ?_
  obtain ⟨ns, hitem, rfl⟩ := (mem_directories standard_lawful ht habs).mp hp
  simp [standard, h ns hitem]

/-- Where nothing is refused, the directories at and below a path are watched that no link is on the way
to, by any path that names the same. -/
theorem watchTree_of_none (hw : w.Lawful) (ht : t.WellFormed) (habs : Path.isAbsolute root = true)
    {watched : List String} (h : (w.watchTree t watched root).2 = none)
    (hns : ∀ n ∈ ns, IsName n ∧ n.toList.head? ≠ some '.') {path : String}
    (hpath : Path.components path = Path.components root ++ ns.map .name) :
    (∃ p ∈ (w.watchTree t watched root).1, Path.components p = Path.components path) ↔
      (∃ p ∈ watched, Path.components p = Path.components path) ∨ t.Unlinked root ns := by
  obtain ⟨hwatched, hrefused⟩ := watchAll_of_none h
  have hall : ∀ ms, Item t wants root ms .directory → t.pathExists (descend root ms) = true :=
    fun ms hms => hw.exists_of_watched (hrefused _ ((mem_directories hw ht habs).mpr ⟨ms, hms, rfl⟩))
  have hfound : (∃ p ∈ w.directories t root, Path.components p = Path.components path) ↔
      t.Unlinked root ns := by
    constructor
    · rintro ⟨p, hp, hcomponents⟩
      obtain ⟨ms, hitem, rfl⟩ := (mem_directories hw ht habs).mp hp
      rw [Path.components_descend root (hitem.isName ht), hpath] at hcomponents
      obtain rfl := Path.map_name_injective (List.append_cancel_left hcomponents)
      exact hitem.unlinked ht habs hall rfl
    · intro hunlinked
      refine ⟨_, (mem_directories hw ht habs).mpr
        ⟨ns, item_of_unlinked ht habs hns hunlinked, rfl⟩, ?_⟩
      rw [Path.components_descend root fun n hn => (hns n hn).1, hpath]
  rw [watchTree, hwatched]
  simp only [List.mem_append, or_and_right, exists_or, hfound]

end Watcher

/-- The names of what is visited are not hidden. -/
theorem Site.names_of_mem_visited {s : Site} {t : FileTree} (ht : t.WellFormed) {scope : Option String}
    {ns : List String} (h : ns ∈ s.visited t scope) : ∀ n ∈ ns, IsName n ∧ n.toList.head? ≠ some '.' := by
  intro n hn
  obtain ⟨hname, hapart⟩ := s.names_of_mem_tour ht (List.mem_of_mem_filter h) n hn
  simp only [isApart, Bool.or_eq_false_iff, decide_eq_false_iff_not] at hapart
  exact ⟨hname, by tauto⟩

theorem Scope.scopeNames_ofRelative (rel : String) :
    Site.scopeNames (ofRelative rel).limit? = Path.names rel := by
  unfold ofRelative
  split
  · next hempty =>
    rw [hempty]
    decide
  · rfl

namespace Live

/-- A directory is watched, by any path that names the same. -/
def Watches (l : Live) (path : String) : Prop :=
  ∃ p ∈ l.watched, Path.components p = Path.components path

/-- A session that watches, after any number of changes. Between them anything can become of the files. -/
inductive Reached (w : Watcher) (cwd : Location) : Live → Prop
  | start {t : FileTree} {site : Site} {l : Live} {o : Outcome} (ht : t.WellFormed) (hcwd : t.cwd = cwd)
      (h : Live.start w t site = .ok (l, o)) : Reached w cwd l
  | apply {l : Live} (h : Reached w cwd l) (t : FileTree) (hcwd : t.cwd = cwd) (now : Nat)
      (change : Change) : Reached w cwd (l.apply w t now change).1

variable {w : Watcher} {t : FileTree} {site : Site} {l : Live} {o : Outcome} {ns : List String}

/-- The session under what is watched is the plain one. -/
theorem apply_session (w : Watcher) (l : Live) (t : FileTree) (now : Nat) (change : Change) :
    (l.apply w t now change).1.session = (l.session.handle t now change).1 ∧
      (l.apply w t now change).2.toOutcome = (l.session.handle t now change).2 := by
  unfold apply
  rcases l.session.handle t now change with ⟨s, o⟩
  simp only
  split <;> exact ⟨rfl, rfl⟩

theorem of_start (h : Live.start w t site = .ok (l, o)) :
    ∃ o', Session.start t site = .ok (l.session, o') ∧ o.tree = o'.tree ∧
      w.watchTree o.tree [] l.session.site.src = (l.watched, none) := by
  unfold Live.start at h
  split at h
  · simp at h
  · next s o' hstart =>
    split at h
    · simp at h
    · next watched hwatched =>
      simp only [Except.ok.injEq, Prod.mk.injEq] at h
      obtain ⟨rfl, rfl⟩ := h
      exact ⟨o', hstart, rfl, hwatched⟩

/-- A session that watches is one of a site by absolute paths. -/
theorem Reached.absolute {cwd : Location} (h : Reached w cwd l) (hcwd : t.cwd = cwd) :
    l.session.site.absolute t.cwdPath = l.session.site := by
  induction h with
  | start ht hcwd' h =>
    obtain ⟨o', hstart, -⟩ := of_start h
    have hsite := (Session.of_start ht hstart).1
    rwa [FileTree.cwdPath, hcwd', ← hcwd] at hsite
  | apply h u hcwd' now change ih =>
    rw [(apply_session w _ u now change).1, Session.handle_site]
    exact ih

/-- A session is started if nothing is refused. -/
theorem exists_start {s : Session} {o' : Session.Outcome} (h : Session.start t site = .ok (s, o'))
    (hwatch : (w.watchTree o'.tree [] s.site.src).2 = none) :
    ∃ l o, Live.start w t site = .ok (l, o) ∧ l.session = s ∧ o.tree = o'.tree := by
  rcases htree : w.watchTree o'.tree [] s.site.src with ⟨watched, refused⟩
  rw [htree] at hwatch
  simp only at hwatch
  subst hwatch
  unfold Live.start
  simp only [h, htree]
  exact ⟨_, _, rfl, rfl, rfl⟩

/-- At the start the directories are watched that are visited through no link. -/
theorem watches_of_start (hw : w.Lawful) (ht : t.WellFormed) (h : Live.start w t site = .ok (l, o))
    (hns : ns ∈ l.session.site.visited t none) :
    l.Watches (descend l.session.site.src ns) ↔ o.tree.Unlinked l.session.site.src ns := by
  obtain ⟨o', hstart, htree, hwatched⟩ := of_start h
  obtain ⟨habs, -, hbuild, -⟩ := Session.of_start ht hstart
  have hsrc : Path.isAbsolute l.session.site.src = true := habs ▸ Site.isAbsolute_src ht
  have hwell : o.tree.WellFormed := by
    rw [htree, hbuild]
    exact (l.session.site.build_steady ht none).changed.wellFormed ht
  have hnames := Site.names_of_mem_visited ht hns
  have hfound := Watcher.watchTree_of_none hw hwell hsrc (by rw [hwatched]) hnames
    (Path.components_descend _ fun n hn => (hnames n hn).1)
  rw [hwatched] at hfound
  simpa [Watches] using hfound

/-- A new directory that is accepted is built, with what is below it, and searched for what to watch. -/
theorem of_apply_directory {now : Nat} {path : String}
    (h : (l.apply w t now (.directory path)).2.watch = true) :
    ∃ scope, Scope.ofDirectory path l.session.site.src = some scope ∧
      (l.apply w t now (.directory path)).2.tree = (l.session.site.build t scope.limit?).1 ∧
      w.watchTree (l.apply w t now (.directory path)).2.tree l.watched path =
        ((l.apply w t now (.directory path)).1.watched,
          (l.apply w t now (.directory path)).2.refused) := by
  have hwatch : (l.session.handle t now (.directory path)).2.watch = true := by
    rwa [← (apply_session w l t now (.directory path)).2]
  have happly : l.apply w t now (.directory path) =
      ({ session := (l.session.handle t now (.directory path)).1
         watched := (w.watchTree (l.session.handle t now (.directory path)).2.tree l.watched path).1 },
        { toOutcome := (l.session.handle t now (.directory path)).2
          refused :=
            (w.watchTree (l.session.handle t now (.directory path)).2.tree l.watched path).2 }) := by
    simp only [apply, hwatch]
  rw [happly]
  have haccept : (l.session.gate.accept now).1 = true := by
    by_contra hno
    simp [Session.handle, hno] at hwatch
  have hadded : (l.session.handle t now (.directory path)).2 = l.session.directoryAdded t path :=
    Session.handle_of_accept haccept t _
  rw [hadded] at hwatch ⊢
  cases hscope : Scope.ofDirectory path l.session.site.src with
  | none => simp [Session.directoryAdded, hscope] at hwatch
  | some scope =>
    refine ⟨scope, rfl, ?_, rfl⟩
    simp only [Session.directoryAdded, hscope]
    exact (l.session.build_eq t scope).1

/-- When a directory is new, those are watched that were before, and those that are visited for it and
reached from there through no link. -/
theorem watches_of_added (hw : w.Lawful) (ht : t.WellFormed) (hl : Reached w t.cwd l) {path : String}
    {ds : List String}
    (hpath : Path.components path = Path.components l.session.site.src ++ ds.map .name) {now : Nat}
    (h : (l.apply w t now (.directory path)).2.watch = true)
    (hrefused : (l.apply w t now (.directory path)).2.refused = none) :
    ∃ scope, Scope.ofDirectory path l.session.site.src = some scope ∧
      Site.scopeNames scope.limit? = ds ∧
      ∀ rest, ds ++ rest ∈ l.session.site.visited t scope.limit? →
        ((l.apply w t now (.directory path)).1.Watches (descend l.session.site.src (ds ++ rest)) ↔
          l.Watches (descend l.session.site.src (ds ++ rest)) ∨
            (l.apply w t now (.directory path)).2.tree.Unlinked path rest) := by
  have habs := hl.absolute rfl
  have hsrc : Path.isAbsolute l.session.site.src = true := habs ▸ Site.isAbsolute_src ht
  obtain ⟨scope, hscope, htree, hwatched⟩ := of_apply_directory h
  obtain ⟨rel, hrel, rfl⟩ := Option.map_eq_some_iff.mp hscope
  obtain ⟨hpathabs, hcomponents⟩ := Path.components_of_stripPrefix hsrc hrel
  have hds : Path.components rel = ds.map .name :=
    List.append_cancel_left (hcomponents.symm.trans hpath)
  refine ⟨_, hscope, ?_, fun rest hrest => ?_⟩
  · rw [Scope.scopeNames_ofRelative, Path.names, hds]
    simp [List.filterMap_map]
  · have hnames := Site.names_of_mem_visited ht hrest
    have hwell : (l.apply w t now (.directory path)).2.tree.WellFormed := by
      rw [htree]
      exact (l.session.site.build_steady ht _).changed.wellFormed ht
    have hbelow : Path.components (descend l.session.site.src (ds ++ rest)) =
        Path.components path ++ rest.map .name := by
      rw [Path.components_descend _ fun n hn => (hnames n hn).1, hpath, List.map_append,
        List.append_assoc]
    have hfound := Watcher.watchTree_of_none hw hwell hpathabs (by rw [hwatched, hrefused])
      (fun n hn => hnames n (List.mem_append_right _ hn)) hbelow
    rwa [hwatched] at hfound

/-- Without links, all directories that are visited at the start are watched. -/
theorem watches_of_linkFree (hw : w.Lawful) (ht : t.WellFormed) (hl : t.LinkFree)
    (h : Live.start w t site = .ok (l, o)) (hns : ns ∈ l.session.site.visited t none) :
    l.Watches (descend l.session.site.src ns) := by
  obtain ⟨o', hstart, htree, -⟩ := of_start h
  obtain ⟨habs, hdir, hbuild, -⟩ := Session.of_start ht hstart
  rw [watches_of_start hw ht h hns, htree, hbuild]
  have hunlinked := l.session.site.unlinked_of_visited ht hl (by rwa [habs]) none [] hns
  rwa [habs] at hunlinked

/-- Without links, a new directory and all that are visited below it are watched. -/
theorem watches_added_of_linkFree (hw : w.Lawful) (ht : t.WellFormed) (hlinks : t.LinkFree)
    (hl : Reached w t.cwd l) (hdir : t.isDir l.session.site.src = true) {ds : List String} {now : Nat}
    (h : (l.apply w t now (.directory (descend l.session.site.src ds))).2.watch = true)
    (hrefused : (l.apply w t now (.directory (descend l.session.site.src ds))).2.refused = none)
    (hds : ∀ n ∈ ds, IsName n) :
    ∃ scope, Scope.ofDirectory (descend l.session.site.src ds) l.session.site.src = some scope ∧
      ∀ rest, ds ++ rest ∈ l.session.site.visited t scope.limit? →
        (l.apply w t now (.directory (descend l.session.site.src ds))).1.Watches
          (descend l.session.site.src (ds ++ rest)) := by
  have habs := hl.absolute rfl
  obtain ⟨scope, hscope, htree, -⟩ := of_apply_directory h
  obtain ⟨scope', hscope', -, hwatches⟩ :=
    watches_of_added hw ht hl (Path.components_descend _ hds) h hrefused
  obtain rfl := Option.some.inj (hscope.symm.trans hscope')
  refine ⟨scope, hscope, fun rest hrest => (hwatches rest hrest).mpr (.inr ?_)⟩
  have hunlinked :=
    l.session.site.unlinked_of_visited ht hlinks (by rwa [habs]) scope.limit? ds hrest
  rw [habs] at hunlinked
  rwa [htree]

/-- Of the directories that a build visits, at the start and for a new directory, those that it reaches
through no link are watched from then on, and no others that were not before. -/
theorem watched_as_visited (hw : w.Lawful) :
    (∀ {t site l o}, t.WellFormed → Live.start w t site = .ok (l, o) →
      ∀ ns ∈ l.session.site.visited t none,
        (l.Watches (descend l.session.site.src ns) ↔ o.tree.Unlinked l.session.site.src ns)) ∧
    ∀ {t l path ds now}, t.WellFormed → Reached w t.cwd l →
      Path.components path = Path.components l.session.site.src ++ ds.map .name →
      (l.apply w t now (.directory path)).2.watch = true →
      (l.apply w t now (.directory path)).2.refused = none →
      ∃ scope, Scope.ofDirectory path l.session.site.src = some scope ∧
        Site.scopeNames scope.limit? = ds ∧
        ∀ rest, ds ++ rest ∈ l.session.site.visited t scope.limit? →
          ((l.apply w t now (.directory path)).1.Watches (descend l.session.site.src (ds ++ rest)) ↔
            l.Watches (descend l.session.site.src (ds ++ rest)) ∨
              (l.apply w t now (.directory path)).2.tree.Unlinked path rest) :=
  ⟨fun ht h _ hns => watches_of_start hw ht h hns,
    fun ht hl hpath h hrefused => watches_of_added hw ht hl hpath h hrefused⟩

/-! A source in which `a` is a link to the directory `b`. -/

def aliasSession : Session :=
  { site := { src := "/src", out := "/dist" }, gate := { threshold := Session.quietTime } }

def aliased : FileTree :=
  { cwd := []
    entries := [(["src"], .directory), (["src", "b"], .directory), (["src", "a"], .link "b"),
      (["dist"], .directory)] }

theorem aliased_wellFormed : aliased.WellFormed :=
  FileTree.wellFormed_of_entries (by decide) (by decide) (by decide)

section Aliased

variable {u : FileTree} (hu : FileTree.Steady (["dist"] <+: ·) aliased u)

include hu

theorem entry_aliased (ns : List String) :
    u.entry? (["src"] ++ ns) = aliased.entry? (["src"] ++ ns) :=
  hu.changed.entry (by simp) (by simp)

theorem opens_aliased (hdir : aliased.entry? (["src"] ++ ns) = some .directory)
    (hfits : FileTree.Fits (descend "/src" ns) (["src"] ++ ns)) :
    u.Opens (descend "/src" ns) (["src"] ++ ns) :=
  FileTree.opens_of_location (hu.changed.wellFormed aliased_wellFormed)
    (by rw [Path.descend_append]; rfl) hfits ((entry_aliased hu ns).trans hdir)

theorem hasDirectory_aliased : u.HasDirectory "/src" ∧ u.HasDirectory "/src/b" ∧
    ¬u.HasDirectory "/src/a" := by
  have hsrc : u.Opens "/src" ["src"] := @opens_aliased [] u hu (by decide) (by decide)
  have hb : u.Opens "/src/b" ["src", "b"] := @opens_aliased ["b"] u hu (by decide) (by decide)
  have hwell := hu.changed.wellFormed aliased_wellFormed
  refine ⟨?_, ?_, ?_⟩
  · exact (u.opens_root.hasDirectory_join_iff (n := "src") (by decide)).mpr
      ⟨hsrc.pathExists, hsrc.entry hwell⟩
  · exact (hsrc.hasDirectory_join_iff (n := "b") (by decide)).mpr ⟨hb.pathExists, hb.entry hwell⟩
  · have hlink : aliased.entry? (["src"] ++ ["a"]) = some (.link "b") := by decide
    exact hsrc.not_hasDirectory (by decide) ((entry_aliased hu ["a"]).trans hlink)

/-- Each directory that is found at the source, or at `b`, can be watched. -/
theorem exists_of_item_aliased {ds : List String} (hds : ds = [] ∨ ds = ["b"])
    (h : Watcher.Item u Watcher.wants (descend "/src" ds) ns .directory) :
    u.pathExists (descend (descend "/src" ds) ns) = true := by
  have hdir := hasDirectory_aliased hu
  have hroot : u.Opens (descend "/src" ds) (["src"] ++ ds) ∧ u.HasDirectory (descend "/src" ds) := by
    rcases hds with rfl | rfl
    · exact ⟨opens_aliased hu (by decide) (by decide), hdir.1⟩
    · exact ⟨opens_aliased hu (by decide) (by decide), hdir.2.1⟩
  obtain ⟨hentry, -⟩ := h.entry (hu.changed.wellFormed aliased_wellFormed) hroot.1 hroot.2
  rw [List.append_assoc, entry_aliased hu] at hentry
  have hplace : ds ++ ns = [] ∨ ds ++ ns = ["b"] := by
    generalize ds ++ ns = L at hentry
    obtain ⟨e, hmem⟩ := (FileTree.mem_of_entry? (t := aliased) (L := ["src"] ++ L)
      (by rw [hentry]; simp)).resolve_left (by simp)
    simp only [aliased, List.singleton_append, List.mem_cons, Prod.mk.injEq, List.cons.injEq,
      true_and, List.not_mem_nil, or_false] at hmem
    rcases hmem with ⟨rfl, -⟩ | ⟨rfl, -⟩ | ⟨rfl, -⟩ | ⟨hdist, -⟩
    · exact .inl rfl
    · exact .inr rfl
    · exact absurd hentry (by decide)
    · simp at hdist
  rw [← Path.descend_append]
  rcases hplace with hplace | hplace <;> rw [hplace]
  · exact (@opens_aliased [] u hu (by decide) (by decide)).pathExists
  · exact (@opens_aliased ["b"] u hu (by decide) (by decide)).pathExists

end Aliased

theorem aliased_ground : aliasSession.site.ground aliased = aliased :=
  Site.ground_eq_of_opens (FileTree.opens_of_location (L := ["dist"]) aliased_wellFormed (by decide)
    (by decide) (by decide))

theorem aliased_hosts : aliased.Hosts "/dist" ["dist"] where
  wellFormed := aliased_wellFormed
  opens := FileTree.opens_of_location aliased_wellFormed (by decide) (by decide) (by decide)
  bare := by
    intro M target hM
    have hmem := FileTree.mem_locations (t := aliased) (L := ["dist"] ++ M) (by rw [hM]; simp)
    obtain rfl : M = [] := by simpa [aliased] using hmem
    rw [show aliased.entry? (["dist"] ++ []) = some .directory by decide] at hM
    simp at hM

/-- A build of the source changes the output alone. -/
theorem aliased_build (scope : Option String) :
    FileTree.Steady (["dist"] <+: ·) aliased (aliasSession.site.build aliased scope).1 := by
  have habs : (aliasSession.site.absolute aliased.cwdPath).out = "/dist" := by decide
  have hwithin := aliasSession.site.build_within aliased_wellFormed
    (by rw [aliased_ground, habs]; exact aliased_hosts) scope
  rwa [aliased_ground] at hwithin

/-- The link leads to a directory. -/
theorem aliased_isDir : aliased.isDir "/src/a" = true := by
  have hwalk : aliased.walk true 40 [] ["", "src", "a"] = .ok (.found ["src", "b"] .directory) := by
    rw [FileTree.walk_idle _ _ _ _ rfl,
      FileTree.walk_directory _ _ _ _ (by decide) (by decide) (by decide)
        (show aliased.entry? ([] ++ ["src"]) = some .directory by decide), List.nil_append,
      FileTree.walk_link _ _ _ (by decide) (by decide) (by decide)
        (show aliased.entry? (["src"] ++ ["a"]) = some (.link "b") by decide), if_neg (by decide)]
    change aliased.walk true 39 ["src"] ["b"] = _
    rw [FileTree.walk_directory _ _ _ _ (by decide) (by decide) (by decide)
      (show aliased.entry? (["src"] ++ ["b"]) = some .directory by decide), FileTree.walk_nil]
    rfl
  exact (FileTree.Opens.of_walk (by decide) (by decide) (by decide) hwalk).isDir

/-- A build goes on to the directory `b` and, by the link, to `a`. -/
theorem aliased_visited : ["b"] ∈ aliasSession.site.visited aliased none ∧
    ["a"] ∈ aliasSession.site.visited aliased none := by
  have hb := @opens_aliased ["b"] aliased (.refl _ _) (by decide) (by decide)
  exact ⟨Site.mem_visited_of_isDir aliased_wellFormed (by decide) aliased_ground (by decide) hb.isDir,
    Site.mem_visited_of_isDir aliased_wellFormed (by decide) aliased_ground (by decide) aliased_isDir⟩

/-- The source can be watched. -/
theorem aliased_start : ∃ l o, Live.start Watcher.standard aliased aliasSession.site = .ok (l, o) ∧
    l.session = aliasSession ∧ FileTree.Steady (["dist"] <+: ·) aliased o.tree := by
  have hroot : aliased.isDir "/src" = true :=
    (@opens_aliased [] aliased (.refl _ _) (by decide) (by decide)).isDir
  have hstart : Session.start aliased aliasSession.site =
      .ok (aliasSession, aliasSession.build aliased .full) := by
    have habs : aliasSession.site.absolute aliased.cwdPath = aliasSession.site := by decide
    rw [Session.start, Session.ofSite, habs]
    exact if_pos hroot
  have hbuild := aliased_build Scope.full.limit?
  rw [← (aliasSession.build_eq aliased .full).1] at hbuild
  obtain ⟨l, o, hlive, hsession, htree⟩ := exists_start hstart
    (Watcher.standard_watchTree (hbuild.changed.wellFormed aliased_wellFormed) (by decide)
      (fun ns h => @exists_of_item_aliased ns _ hbuild [] (.inl rfl) h) [])
  exact ⟨l, o, hlive, hsession, htree ▸ hbuild⟩

/-- The directory `b`, come once more, is accepted, and nothing is refused. -/
theorem aliased_apply {l : Live} (hsession : l.session = aliasSession) :
    Scope.ofDirectory "/src/b" l.session.site.src = some (.below "b") ∧
      (l.apply Watcher.standard aliased 0 (.directory "/src/b")).2.watch = true ∧
      (l.apply Watcher.standard aliased 0 (.directory "/src/b")).2.refused = none ∧
      FileTree.Steady (["dist"] <+: ·) aliased
        (l.apply Watcher.standard aliased 0 (.directory "/src/b")).2.tree := by
  have hscope : Scope.ofDirectory "/src/b" l.session.site.src = some (.below "b") := by
    rw [hsession]
    decide
  have hwatch : (l.apply Watcher.standard aliased 0 (.directory "/src/b")).2.watch = true := by
    rw [(apply_session _ l aliased 0 (.directory "/src/b")).2,
      Session.handle_of_accept (by rw [hsession]; decide), Session.react, Session.directoryAdded, hscope]
  obtain ⟨scope, -, htree, hwatched⟩ := of_apply_directory hwatch
  have hsteady : FileTree.Steady (["dist"] <+: ·) aliased
      (l.apply Watcher.standard aliased 0 (.directory "/src/b")).2.tree := by
    rw [htree, hsession]
    exact aliased_build scope.limit?
  refine ⟨hscope, hwatch, ?_, hsteady⟩
  have hrefused := Watcher.standard_watchTree (hsteady.changed.wellFormed aliased_wellFormed) (by decide)
    (fun ns h => @exists_of_item_aliased ns _ hsteady ["b"] (.inr rfl) h) l.watched
  exact (congrArg Prod.snd hwatched).symm.trans hrefused

theorem watched_as_visited_aliased : ∃ l o,
    Live.start Watcher.standard aliased aliasSession.site = .ok (l, o) ∧
      ["b"] ∈ l.session.site.visited aliased none ∧ l.Watches "/src/b" ∧
      (l.apply Watcher.standard aliased 0 (.directory "/src/b")).2.watch = true ∧
      (l.apply Watcher.standard aliased 0 (.directory "/src/b")).2.refused = none ∧
      (l.apply Watcher.standard aliased 0 (.directory "/src/b")).1.Watches "/src/b" := by
  obtain ⟨l, o, hstart, hsession, htree⟩ := aliased_start
  obtain ⟨hscope, hwatch, hrefused, hadded⟩ := aliased_apply hsession
  obtain ⟨hwatches, hwatchesAdded⟩ := watched_as_visited Watcher.standard_lawful
  have hunlinked : ∀ {u : FileTree}, FileTree.Steady (["dist"] <+: ·) aliased u →
      u.Unlinked "/src" ["b"] ∧ u.Unlinked "/src/b" [] := by
    intro u hu
    obtain ⟨-, hb, -⟩ := hasDirectory_aliased hu
    exact ⟨FileTree.unlinked_concat.mpr ⟨hb, fun hne => absurd rfl hne⟩, FileTree.unlinked_nil.mpr hb⟩
  have hvisited : ["b"] ∈ l.session.site.visited aliased none := hsession ▸ aliased_visited.1
  have hfirst := (hwatches aliased_wellFormed hstart ["b"] hvisited).mpr
    (by rw [hsession]; exact (hunlinked htree).1)
  have hpath : Path.components "/src/b" =
      Path.components l.session.site.src ++ ["b"].map .name := by
    rw [hsession]
    decide
  obtain ⟨scope, hscope', -, hrest⟩ :=
    hwatchesAdded aliased_wellFormed (.start aliased_wellFormed rfl hstart) hpath hwatch hrefused
  obtain rfl := Option.some.inj (hscope.symm.trans hscope')
  have hnear : ["b"] ++ [] ∈ l.session.site.visited aliased (Scope.below "b").limit? := by
    have hdir : aliased.isDir (l.session.site.absolute aliased.cwdPath).src = true := by
      rw [hsession]
      exact (@opens_aliased [] aliased (.refl _ _) (by decide) (by decide)).isDir
    exact (Site.mem_visited aliased_wellFormed hdir).mpr
      ⟨((Site.mem_visited aliased_wellFormed hdir).mp hvisited).1, by decide⟩
  have hsecond := (hrest [] hnear).mpr (.inr (hunlinked hadded).2)
  rw [hsession] at hfirst hsecond
  exact ⟨l, o, hstart, hvisited, hfirst, hwatch, hrefused, hsecond⟩

/-- A build goes on to `a`, and `a` is not watched. -/
theorem alias_not_watched : ∃ l o,
    Live.start Watcher.standard aliased aliasSession.site = .ok (l, o) ∧
      ["a"] ∈ l.session.site.visited aliased none ∧ ¬l.Watches "/src/a" := by
  obtain ⟨l, o, hstart, hsession, htree⟩ := aliased_start
  have hvisited : ["a"] ∈ l.session.site.visited aliased none := hsession ▸ aliased_visited.2
  refine ⟨l, o, hstart, hvisited, fun hwatches => ?_⟩
  have hunlinked := (watches_of_start Watcher.standard_lawful aliased_wellFormed hstart hvisited).mp
    (by rw [hsession]; exact hwatches)
  rw [hsession] at hunlinked
  exact (hasDirectory_aliased htree).2.2 (hunlinked.below [] "a" List.prefix_rfl)

end Live

end Cascade
