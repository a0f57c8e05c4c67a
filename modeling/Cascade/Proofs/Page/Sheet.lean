import Cascade.Proofs.Page.Write
/-!
Pages in their places. A page that is written leaves its forms and changes no other file; so that a run
in which each page is written has the effect of its pages one after another.
-/

namespace Cascade

open Path (IsName join descend)

/-- A page and its place below the output directory. -/
structure Sheet where
  dir : List String
  name : String
  html : Bytes
  forms : Page.Forms

namespace Sheet

/-- The place of the plain form. -/
def plain (x : Sheet) : List String := x.dir ++ [x.name]

/-- The place of the compressed form. -/
def gzip (x : Sheet) : List String := x.dir ++ [Page.gzipName x.name]

def target (out : String) (x : Sheet) : String := join (descend out x.dir) x.name

def write (out : String) (t : FileTree) (x : Sheet) : Page.Written :=
  Page.write t (x.target out) x.html x.forms

/-- Places have names, and a page has the suffix of one. -/
structure Valid (x : Sheet) : Prop where
  dir : ∀ n ∈ x.dir, IsName n
  name : IsName x.name
  suffix : ∃ stem, x.name = stem ++ ".html"

/-- The last character of a name tells a page from a compressed one. -/
theorem html_ne_gzipName (stem n : String) : stem ++ ".html" ≠ Page.gzipName n := by
  intro he
  have hlast := congrArg (fun s : String => s.toList.getLast?) he
  simp [Page.gzipName, String.toList_append] at hlast

theorem plain_ne_gzip {x y : Sheet} (hx : x.Valid) : x.plain ≠ y.gzip := by
  obtain ⟨stem, hstem⟩ := hx.suffix
  intro he
  have hname : x.name = Page.gzipName y.name := by
    simpa using (List.append_inj' he rfl).2
  exact html_ne_gzipName stem y.name (hstem ▸ hname)

theorem gzip_inj {x y : Sheet} : x.gzip = y.gzip ↔ x.plain = y.plain := by
  constructor
  · intro he
    obtain ⟨hdir, hname⟩ := List.append_inj' he rfl
    have hname : Page.gzipName x.name = Page.gzipName y.name := by simpa using hname
    rw [plain, plain, hdir, String.append_left_inj ".gz" |>.mp hname]
  · intro he
    obtain ⟨hdir, hname⟩ := List.append_inj' he rfl
    have hname : x.name = y.name := by simpa using hname
    rw [gzip, gzip, hdir, hname]

/-- The files below a directory, by the names that lead to them. -/
abbrev Files := List String → Option Bytes

/-- What a page makes of the files below the output directory. -/
def effect (x : Sheet) (files : Files) : Files := fun L =>
  if L = x.plain then (if x.forms.plain then some x.html else none)
  else if L = x.gzip ∧ x.forms.compressed = true then some (Gzip.compress x.html)
  else files L

def effects (xs : List Sheet) (files : Files) : Files := xs.foldl (fun files x => x.effect files) files

@[simp] theorem effects_nil (files : Files) : effects [] files = files := rfl

@[simp] theorem effects_cons (x : Sheet) (xs : List Sheet) (files : Files) :
    effects (x :: xs) files = effects xs (x.effect files) := rfl

theorem effects_append (xs ys : List Sheet) (files : Files) :
    effects (xs ++ ys) files = effects ys (effects xs files) := List.foldl_append ..

/-- A page has no effect elsewhere. -/
theorem effect_of_ne {x : Sheet} {files : Files} {L : List String} (hplain : L ≠ x.plain)
    (hgzip : L = x.gzip → x.forms.compressed = false) : x.effect files L = files L := by
  rw [effect, if_neg hplain, if_neg]
  rintro ⟨he, hc⟩
  simp [hgzip he] at hc

theorem effects_of_ne {xs : List Sheet} {files : Files} {L : List String}
    (hplain : ∀ x ∈ xs, L ≠ x.plain)
    (hgzip : ∀ x ∈ xs, L = x.gzip → x.forms.compressed = false) :
    effects xs files L = files L := by
  induction xs generalizing files with
  | nil => rfl
  | cons x xs ih =>
    rw [effects_cons, ih (fun y hy => hplain y (List.mem_cons_of_mem _ hy))
      fun y hy => hgzip y (List.mem_cons_of_mem _ hy)]
    exact effect_of_ne (hplain x List.mem_cons_self) (hgzip x List.mem_cons_self)

/-- A file after a run is one that was there, or a form of a page of the run. -/
theorem effects_cases {xs : List Sheet} {files : Files} {L : List String} {c : Bytes}
    (h : effects xs files L = some c) : files L = some c ∨ ∃ x ∈ xs,
      (L = x.plain ∧ x.forms.plain = true ∧ c = x.html) ∨
        (L = x.gzip ∧ x.forms.compressed = true ∧ c = Gzip.compress x.html) := by
  induction xs generalizing files with
  | nil => exact .inl h
  | cons x xs ih =>
    rcases ih h with hfile | ⟨y, hy, hform⟩
    · have hfirst : x.effect files L = some c := hfile
      rw [effect] at hfirst
      split at hfirst
      · next he =>
        split at hfirst
        · next hp => exact .inr ⟨x, List.mem_cons_self, .inl ⟨he, hp, (Option.some.inj hfirst).symm⟩⟩
        · simp at hfirst
      · split at hfirst
        · next hgz =>
          exact .inr ⟨x, List.mem_cons_self, .inr ⟨hgz.1, hgz.2, (Option.some.inj hfirst).symm⟩⟩
        · exact .inl hfirst
    · exact .inr ⟨y, List.mem_cons_of_mem _ hy, hform⟩

/-- Pages in places of their own stay as they are written. -/
theorem effects_of_mem {xs : List Sheet} (hvalid : ∀ x ∈ xs, x.Valid)
    (hdistinct : xs.Pairwise fun x y => x.plain ≠ y.plain) {x : Sheet} (hx : x ∈ xs)
    (files : Files) :
    effects xs files x.plain = (if x.forms.plain then some x.html else none) ∧
      effects xs files x.gzip =
        if x.forms.compressed then some (Gzip.compress x.html) else files x.gzip := by
  induction xs generalizing files with
  | nil => simp at hx
  | cons y ys ih =>
    have hys : ∀ z ∈ ys, z.Valid := fun z hz => hvalid z (List.mem_cons_of_mem _ hz)
    obtain ⟨hfirst, hrest⟩ := List.pairwise_cons.mp hdistinct
    have hxvalid := hvalid x hx
    have hyvalid := hvalid y List.mem_cons_self
    rw [effects_cons]
    rcases List.mem_cons.mp hx with rfl | hx
    · constructor
      · rw [effects_of_ne (fun z hz => hfirst z hz)
          fun z hz he => absurd he (plain_ne_gzip hxvalid), effect, if_pos rfl]
      · rw [effects_of_ne (fun z hz he => plain_ne_gzip (hys z hz) he.symm)
          fun z hz he => absurd (gzip_inj.mp he) (hfirst z hz), effect,
          if_neg (plain_ne_gzip hxvalid).symm]
        cases x.forms.compressed <;> simp
    · obtain ⟨hplain, hgzip⟩ := ih hys hrest hx (y.effect files)
      refine ⟨hplain, ?_⟩
      rw [hgzip, effect_of_ne (plain_ne_gzip hyvalid).symm
        fun he => absurd (gzip_inj.mp he).symm (hfirst x hx)]

theorem effects_congr {xs : List Sheet} {files files' : Files} {L : List String}
    (h : files L = files' L) : effects xs files L = effects xs files' L := by
  induction xs generalizing files files' with
  | nil => exact h
  | cons x xs ih =>
    rw [effects_cons, effects_cons]
    refine ih ?_
    rw [effect, effect, h]

/-- Pages in different places can be written in either order. -/
theorem effect_comm {x y : Sheet} (hx : x.Valid) (hy : y.Valid) (hne : x.plain ≠ y.plain)
    (files : Files) : x.effect (y.effect files) = y.effect (x.effect files) := by
  funext L
  by_cases hL : L = x.plain ∨ L = x.gzip
  · have hother : ∀ files : Files, y.effect files L = files L := by
      intro files
      rcases hL with rfl | rfl
      · exact effect_of_ne hne fun he => absurd he (plain_ne_gzip hx)
      · exact effect_of_ne (plain_ne_gzip hy).symm fun he => absurd (gzip_inj.mp he) hne
    rw [hother]
    show effects [x] (y.effect files) L = effects [x] files L
    exact effects_congr (hother files)
  · have hother : ∀ files : Files, x.effect files L = files L := fun files =>
      effect_of_ne (fun he => hL (.inl he)) fun he => absurd (.inr he) hL
    rw [hother]
    show effects [y] files L = effects [y] (x.effect files) L
    exact effects_congr (hother files).symm

theorem effects_effect_comm {x : Sheet} {ys : List Sheet} (hx : x.Valid) (hys : ∀ y ∈ ys, y.Valid)
    (hne : ∀ y ∈ ys, x.plain ≠ y.plain) (files : Files) :
    effects ys (x.effect files) = x.effect (effects ys files) := by
  induction ys generalizing files with
  | nil => rfl
  | cons y ys ih =>
    rw [effects_cons, effects_cons,
      ← effect_comm hx (hys y List.mem_cons_self) (hne y List.mem_cons_self)]
    exact ih (fun z hz => hys z (List.mem_cons_of_mem _ hz))
      (fun z hz => hne z (List.mem_cons_of_mem _ hz)) _

/-- The pages of some directories can be written after all others, if none of them has the place of a
page that comes after it and is not among them. -/
theorem effects_partition {α : Type} {l : List α} {p : α → Bool} {page : α → Option Sheet}
    (hvalid : ∀ a ∈ l, ∀ x, page a = some x → x.Valid)
    (hapart : l.Pairwise fun a b => p a = true → p b = false →
      ∀ x y, page a = some x → page b = some y → x.plain ≠ y.plain) (files : Files) :
    effects (l.filterMap page) files =
      effects ((l.filter p).filterMap page) (effects ((l.filter (!p ·)).filterMap page) files) := by
  induction l generalizing files with
  | nil => rfl
  | cons a l ih =>
    obtain ⟨hfirst, hrest⟩ := List.pairwise_cons.mp hapart
    have ih := ih (fun b hb => hvalid b (List.mem_cons_of_mem _ hb)) hrest
    cases hpage : page a with
    | none =>
      rw [List.filterMap_cons_none hpage, ih]
      cases hp : p a <;> simp [hp, hpage]
    | some x =>
      rw [List.filterMap_cons_some hpage, effects_cons, ih]
      cases hp : p a with
      | false => simp [hp, hpage]
      | true =>
        have hx := hvalid a List.mem_cons_self x hpage
        simp only [List.filter_cons, hp, if_true, Bool.not_true, Bool.false_eq_true, if_false,
          List.filterMap_cons_some hpage, effects_cons]
        congr 1
        refine effects_effect_comm hx (fun y hy => ?_) (fun y hy => ?_) files
        · obtain ⟨b, hb, hy⟩ := List.mem_filterMap.mp hy
          exact hvalid b (List.mem_cons_of_mem _ (List.mem_filter.mp hb).1) y hy
        · obtain ⟨b, hb, hy⟩ := List.mem_filterMap.mp hy
          obtain ⟨hmem, hpb⟩ := List.mem_filter.mp hb
          exact hfirst b hmem hp (by simpa using hpb) x y hpage hy

/-- A file is there until a page in its place is written. -/
theorem isSome_effects {xs : List Sheet} {files : Files} {L : List String}
    (hplain : ∀ x ∈ xs, x.plain ≠ L) (h : (files L).isSome) : (effects xs files L).isSome := by
  induction xs generalizing files with
  | nil => exact h
  | cons x xs ih =>
    rw [effects_cons]
    refine ih (fun y hy => hplain y (List.mem_cons_of_mem _ hy)) ?_
    rw [effect, if_neg (hplain x List.mem_cons_self).symm]
    split
    · rfl
    · exact h

theorem isSome_effects_gzip {xs : List Sheet} (hvalid : ∀ x ∈ xs, x.Valid) {x : Sheet} (hx : x ∈ xs)
    (hc : x.forms.compressed = true) (files : Files) : (effects xs files x.gzip).isSome := by
  induction xs generalizing files with
  | nil => simp at hx
  | cons y ys ih =>
    have hys : ∀ z ∈ ys, z.Valid := fun z hz => hvalid z (List.mem_cons_of_mem _ hz)
    rw [effects_cons]
    rcases List.mem_cons.mp hx with rfl | hx
    · refine isSome_effects (fun z hz => plain_ne_gzip (hys z hz)) ?_
      rw [effect, if_neg (plain_ne_gzip (hvalid x List.mem_cons_self)).symm, if_pos ⟨rfl, hc⟩]
      rfl
    · exact ih hys hx (y.effect files)

/-! Runs. -/

/-- A run over pages, each of which is written. -/
inductive Writes (out : String) : FileTree → List Sheet → FileTree → Prop
  | nil (t : FileTree) : Writes out t [] t
  | cons {t t' u : FileTree} {x : Sheet} {xs : List Sheet} :
    x.write out t = (t', .ok ()) → Writes out t' xs u → Writes out t (x :: xs) u

/-- Writes pages one after another, whatever becomes of each. -/
def runAll (out : String) (t : FileTree) : List Sheet → FileTree × List BuildError
  | [] => (t, [])
  | x :: xs =>
    match x.write out t with
    | (t, .ok ()) => runAll out t xs
    | (t, .error e) =>
      let (t, errors) := runAll out t xs
      (t, e :: errors)

theorem runAll_cons_fst {out : String} (t : FileTree) (x : Sheet) (xs : List Sheet) :
    (runAll out t (x :: xs)).1 = (runAll out (x.write out t).1 xs).1 := by
  rw [runAll]
  split <;> simp [*]

/-- A run in which nothing is refused writes each page. -/
theorem writes_iff {out : String} {t u : FileTree} {xs : List Sheet} :
    Writes out t xs u ↔ runAll out t xs = (u, []) := by
  constructor
  · intro h
    induction h with
    | nil t => rfl
    | cons hwrite _ ih =>
      rw [runAll, hwrite]
      exact ih
  · intro h
    induction xs generalizing t with
    | nil =>
      obtain rfl : t = u := congrArg Prod.fst h
      exact .nil t
    | cons x xs ih =>
      rw [runAll] at h
      cases hwrite : x.write out t with
      | mk t' result =>
        cases result with
        | error e =>
          rw [hwrite] at h
          simp at h
        | ok =>
          rw [hwrite] at h
          exact .cons hwrite (ih h)

/-- The files below a location. -/
def filesBelow (t : FileTree) (O : Location) : Files := fun L => t.fileAt (O ++ L)

/-- The directories that some pages need. -/
def NeedsDir (O : Location) (xs : List Sheet) (M : Location) : Prop :=
  O <+: M ∧ ∃ x ∈ xs, M <+: O ++ x.dir

/-- The places of the forms of some pages. -/
def HasPlace (O : Location) (xs : List Sheet) (M : Location) : Prop :=
  ∃ x ∈ xs, M = O ++ x.plain ∨ M = O ++ x.gzip

section Runs

variable {t u : FileTree} {out : String} {O : Location} {xs : List Sheet}

theorem wrote {x : Sheet} (h : t.Opens out O) (ht : t.WellFormed) (hl : t.LinkFree)
    (hx : x.Valid) : Page.Wrote t out O x.dir x.name x.html x.forms (x.write out t) :=
  Page.wrote h ht hl hx.dir hx.name x.html x.forms

theorem changed_write {x : Sheet} (h : t.Opens out O) (ht : t.WellFormed) (hl : t.LinkFree)
    (hx : x.Valid) :
    FileTree.Changed (NeedsDir O [x]) (HasPlace O [x]) t (x.write out t).1 := by
  refine (wrote h ht hl hx).changed.mono ?_ ?_
  · rintro M ⟨hO, hM⟩
    exact ⟨hO, x, by simp, hM⟩
  · rintro M hM
    refine ⟨x, by simp, ?_⟩
    simpa [plain, gzip] using hM

theorem changed_cons {t' : FileTree} {x : Sheet}
    (hx : FileTree.Changed (NeedsDir O [x]) (HasPlace O [x]) t t')
    (hxs : FileTree.Changed (NeedsDir O xs) (HasPlace O xs) t' u) :
    FileTree.Changed (NeedsDir O (x :: xs)) (HasPlace O (x :: xs)) t u := by
  refine (hx.mono ?_ ?_).trans (hxs.mono ?_ ?_)
  · rintro M ⟨hO, y, hy, hM⟩
    exact ⟨hO, y, by simp_all, hM⟩
  · rintro M ⟨y, hy, hM⟩
    exact ⟨y, by simp_all, hM⟩
  · rintro M ⟨hO, y, hy, hM⟩
    exact ⟨hO, y, List.mem_cons_of_mem _ hy, hM⟩
  · rintro M ⟨y, hy, hM⟩
    exact ⟨y, List.mem_cons_of_mem _ hy, hM⟩

theorem filesBelow_write {x : Sheet} (h : t.Opens out O) (ht : t.WellFormed) (hl : t.LinkFree)
    (hx : x.Valid) (hok : (x.write out t).2 = .ok ()) :
    filesBelow (x.write out t).1 O = x.effect (filesBelow t O) := by
  have hwrote := wrote h ht hl hx
  funext L
  rw [effect]
  split
  · next he =>
    rw [he, filesBelow, plain, ← List.append_assoc]
    exact hwrote.plain_of_ok hok
  · next hplain =>
    split
    · next hgz =>
      rw [hgz.1, filesBelow, gzip, ← List.append_assoc]
      exact hwrote.compressed_of_ok hok hgz.2
    · next hgzip =>
      by_cases he : L = x.gzip
      · subst he
        have hc : x.forms.compressed = false := by simpa using hgzip
        rcases hwrote.compressed with hsame | ⟨hyes, -⟩
        · rw [filesBelow, filesBelow, gzip, ← List.append_assoc]
          exact hsame
        · rw [hc] at hyes
          exact absurd hyes (by simp)
      · refine hwrote.changed.fileAt ?_
        simp only [List.append_assoc, List.append_cancel_left_eq]
        rintro (hL | hL)
        · exact hplain hL
        · exact he hL

/-- A run has the effects of its pages, and makes their directories. -/
theorem Writes.spec (hrun : Writes out t xs u) (h : t.Opens out O) (ht : t.WellFormed)
    (hl : t.LinkFree) (hvalid : ∀ x ∈ xs, x.Valid) :
    FileTree.Changed (NeedsDir O xs) (HasPlace O xs) t u ∧
      filesBelow u O = effects xs (filesBelow t O) ∧
      ∀ x ∈ xs, u.Opens (descend out x.dir) (O ++ x.dir) := by
  induction hrun with
  | nil t => exact ⟨.refl _ _ t, rfl, by simp⟩
  | @cons t t' u x xs hwrite _ ih =>
    have hx := hvalid x List.mem_cons_self
    have hchanged := changed_write h ht hl hx
    have hfiles := filesBelow_write h ht hl hx (by rw [hwrite])
    have hopens := (wrote h ht hl hx).opens (by rw [hwrite])
    rw [hwrite] at hchanged hfiles hopens
    obtain ⟨hrest, hfiles', hopens'⟩ := ih (hchanged.opens ht hl h) (hchanged.wellFormed ht)
      (hchanged.linkFree hl) fun y hy => hvalid y (List.mem_cons_of_mem _ hy)
    refine ⟨changed_cons hchanged hrest, by rw [hfiles', hfiles, effects_cons], fun y hy => ?_⟩
    · rcases List.mem_cons.mp hy with rfl | hy
      · exact hrest.opens (hchanged.wellFormed ht) (hchanged.linkFree hl) hopens
      · exact hopens' y hy

/-- No name in the place of a page is refused. -/
def HasRoom (out : String) (x : Sheet) : Prop :=
  FileTree.refusal? (join (descend out x.dir) x.name) x.name = none ∧
    (x.forms.compressed = true → FileTree.refusal?
      (join (descend out x.dir) (Page.gzipName x.name)) (Page.gzipName x.name) = none)

/-- In a run no directory stands in the place of a page. -/
theorem Writes.entry_ne (hrun : Writes out t xs u) (h : t.Opens out O) (ht : t.WellFormed)
    (hl : t.LinkFree) (hvalid : ∀ x ∈ xs, x.Valid) :
    ∀ x ∈ xs, t.entry? (O ++ x.plain) ≠ some .directory ∧ x.HasRoom out := by
  induction hrun with
  | nil t => simp
  | @cons t t' u x xs hwrite _ ih =>
    have hx := hvalid x List.mem_cons_self
    have hchanged := changed_write h ht hl hx
    have hcan := Page.canPut_of_ok h ht hl hx.dir hx.name (show (x.write out t).2 = .ok () by
      rw [hwrite])
    rw [hwrite] at hchanged
    have hrest := ih (hchanged.opens ht hl h) (hchanged.wellFormed ht) (hchanged.linkFree hl)
      fun y hy => hvalid y (List.mem_cons_of_mem _ hy)
    intro y hy
    rcases List.mem_cons.mp hy with rfl | hy
    · refine ⟨?_, hcan.1.1, fun hc => (hcan.2 hc).1⟩
      rw [plain, ← List.append_assoc]
      exact hcan.1.2
    · obtain ⟨hne, hroom⟩ := hrest y hy
      exact ⟨fun hdir => hne (hchanged.directory hdir), hroom⟩

theorem directory_of_prefix (ht : t.WellFormed) {L M : List String} (hLM : L <+: M)
    (hM : t.entry? (O ++ M) = some .directory) : t.entry? (O ++ L) = some .directory := by
  obtain ⟨back, rfl⟩ := hLM
  by_cases hback : back = []
  · simpa [hback] using hM
  · rw [← List.append_assoc] at hM
    exact ht.directory_of_append hback (by rw [hM]; simp)

/-- A directory that holds nothing holds no files. -/
theorem filesBelow_of_empty (h : t.Opens out O) (ht : t.WellFormed)
    (hempty : ∀ L, L ≠ [] → t.entry? (O ++ L) = none) : filesBelow t O = fun _ => none := by
  funext L
  by_cases hL : L = []
  · rw [hL, filesBelow, List.append_nil, FileTree.fileAt_of_directory (h.entry ht)]
  · rw [filesBelow, FileTree.fileAt, hempty L hL]

theorem Writes.concat {t' : FileTree} {x : Sheet} (hrun : Writes out t xs t')
    (hx : x.write out t' = (u, .ok ())) : Writes out t (xs ++ [x]) u := by
  induction hrun with
  | nil t => exact .cons hx (.nil u)
  | cons hwrite _ ih => exact .cons hwrite (ih hx)

section Fresh

variable (hout : u.Opens out O) (hu : u.WellFormed) (hul : u.LinkFree)
  (hvalid : ∀ x ∈ xs, x.Valid) (hroom : ∀ x ∈ xs, x.HasRoom out)
  (horder : xs.Pairwise fun x y => ¬y.plain <+: x.dir)
  (hdirs : ∀ x ∈ xs, u.Opens (descend out x.dir) (O ++ x.dir))
  (hfiles : ∀ L, (effects xs (fun _ => none) L).isSome → (filesBelow u O L).isSome)
  (h : t.Opens out O) (ht : t.WellFormed) (hl : t.LinkFree)
  (hempty : ∀ L, L ≠ [] → t.entry? (O ++ L) = none)

include hout hu hul hvalid hroom horder hdirs hfiles h ht hl hempty

/-- A run into an empty output directory, over pages that another tree holds, writes the next of them.
What the run has made so far belongs to the pages that it has written. -/
theorem Writes.next_ok {done rest : List Sheet} {t' : FileTree} (hsplit : done ++ x :: rest = xs)
    (hrun : Writes out t done t') : (x.write out t').2 = .ok () := by
  have hnofile : ∀ y ∈ xs, ∀ L, L <+: y.dir → (effects xs (fun _ => none) L).isSome = false := by
    intro y hy L hL
    by_contra hsome
    have hfile := hfiles L (by simpa only [Bool.not_eq_false] using hsome)
    have hdir := directory_of_prefix hu hL ((hdirs y hy).entry hu)
    rw [filesBelow, FileTree.fileAt_of_directory hdir] at hfile
    simp at hfile
  have hmem : x ∈ xs := by rw [← hsplit]; simp
  have hdone : ∀ y ∈ done, y ∈ xs := fun y hy => by rw [← hsplit]; simp [hy]
  have hx := hvalid x hmem
  obtain ⟨hchanged, hbelow, -⟩ := hrun.spec h ht hl fun y hy => hvalid y (hdone y hy)
  rw [filesBelow_of_empty h ht hempty] at hbelow
  have hmade : ∀ L, L ≠ [] → t'.entry? (O ++ L) = some .directory → ∃ y ∈ done, L <+: y.dir := by
    intro L hL hdir
    rcases hchanged.made hdir with hold | ⟨-, y, hy, hle⟩
    · rw [hempty L hL] at hold
      exact absurd hold (by simp)
    · exact ⟨y, hy, (List.prefix_append_right_inj O).mp hle⟩
  have horder' := List.pairwise_append.mp (hsplit.symm ▸ horder)
  have hfree : ¬t'.Blocked out O x.dir := by
    rintro ⟨front, n, hfront, hrefused | hfile⟩
    · exact hrefused ((hout.descend_iff hu hul hx.dir).mp (hdirs x hmem) front n hfront).1
    · have hheld : (effects done (fun _ => none) (front ++ [n])).isSome := by
        rw [← hbelow, filesBelow, ← List.append_assoc]
        exact hfile
      have hlater : ∀ z ∈ x :: rest, z.plain ≠ front ++ [n] := by
        intro z hz he
        rcases List.mem_cons.mp hz with rfl | hz
        · exact absurd (he ▸ hfront).length_le (by simp [plain])
        · exact (List.pairwise_cons.mp horder'.2.1).1 z hz (he ▸ hfront)
      have hsome := isSome_effects hlater hheld
      rw [← effects_append, hsplit, hnofile x hmem _ hfront] at hsome
      simp at hsome
  have hplain : Page.CanPut t' (descend out x.dir) (O ++ x.dir) x.name := by
    refine ⟨(hroom x hmem).1, fun hdir => ?_⟩
    rw [List.append_assoc] at hdir
    obtain ⟨y, hy, hle⟩ := hmade x.plain (by simp [plain]) hdir
    exact horder'.2.2 y hy x List.mem_cons_self hle
  have hgzip : x.forms.compressed = true →
      Page.CanPut t' (descend out x.dir) (O ++ x.dir) (Page.gzipName x.name) := by
    refine fun hc => ⟨(hroom x hmem).2 hc, fun hdir => ?_⟩
    rw [List.append_assoc] at hdir
    obtain ⟨y, hy, hle⟩ := hmade x.gzip (by simp [gzip]) hdir
    have hsome := isSome_effects_gzip hvalid hmem hc (fun _ => none)
    rw [hnofile y (hdone y hy) _ hle] at hsome
    simp at hsome
  exact Page.write_ok (hchanged.opens ht hl h) (hchanged.wellFormed ht) (hchanged.linkFree hl) hx.dir
    hx.name hfree hplain hgzip

/-- The run over pages that a tree holds, from a tree whose output directory holds nothing, writes each
of them. -/
theorem exists_writes : ∃ v, Writes out t xs v := by
  have onward : ∀ (rest done : List Sheet) (t' : FileTree), done ++ rest = xs →
      Writes out t done t' → ∃ v, Writes out t xs v := by
    intro rest
    induction rest with
    | nil =>
      intro done t' hsplit hrun
      rw [List.append_nil] at hsplit
      exact ⟨t', hsplit ▸ hrun⟩
    | cons x rest ih =>
      intro done t' hsplit hrun
      have hok := hrun.next_ok hout hu hul hvalid hroom horder hdirs hfiles h ht hl hempty hsplit
      exact ih (done ++ [x]) (x.write out t').1 (by simp [← hsplit])
        (hrun.concat (Prod.ext rfl hok))
  exact onward xs [] t rfl (.nil t)

end Fresh

/-- Where the directories of pages are and none stands in the place of a page, all pages are
written. -/
theorem exists_writes_of_dirs (h : t.Opens out O) (ht : t.WellFormed) (hl : t.LinkFree)
    (hvalid : ∀ x ∈ xs, x.Valid) (hroom : ∀ x ∈ xs, x.HasRoom out)
    (hdirs : ∀ x ∈ xs, t.Opens (descend out x.dir) (O ++ x.dir))
    (hfree : ∀ x ∈ xs, t.entry? (O ++ x.plain) ≠ some .directory ∧
      t.entry? (O ++ x.gzip) ≠ some .directory) : ∃ u, Writes out t xs u := by
  induction xs generalizing t with
  | nil => exact ⟨t, .nil t⟩
  | cons x xs ih =>
    have hx := hvalid x List.mem_cons_self
    have hdir := hdirs x List.mem_cons_self
    have hchanged := changed_write h ht hl hx
    have hway := (h.descend_iff ht hl hx.dir).mp hdir
    have hblocked : ¬t.Blocked out O x.dir := by
      rintro ⟨front, n, hfront, hrefusal | hfile⟩
      · exact hrefusal (hway front n hfront).1
      · rw [List.append_assoc, FileTree.fileAt_of_directory (hway front n hfront).2] at hfile
        simp at hfile
    have hok : (x.write out t).2 = .ok () := by
      refine Page.write_ok h ht hl hx.dir hx.name hblocked
        ⟨(hroom x List.mem_cons_self).1, ?_⟩ fun hc => ⟨(hroom x List.mem_cons_self).2 hc, ?_⟩
      · rw [List.append_assoc]
        exact (hfree x List.mem_cons_self).1
      · rw [List.append_assoc]
        exact (hfree x List.mem_cons_self).2
    -- the directories that a page needs are there, so that none is made
    have hback : ∀ M, FileTree.entry? (x.write out t).1 M = some .directory →
        t.entry? M = some .directory := by
      intro M hM
      rcases hchanged.made hM with hold | ⟨⟨L, rfl⟩, y, hy, hle⟩
      · exact hold
      · obtain rfl := List.mem_singleton.mp hy
        exact directory_of_prefix ht ((List.prefix_append_right_inj O).mp hle) (hdir.entry ht)
    obtain ⟨u, hu⟩ := ih (hchanged.opens ht hl h) (hchanged.wellFormed ht) (hchanged.linkFree hl)
      (fun y hy => hvalid y (List.mem_cons_of_mem _ hy))
      (fun y hy => hroom y (List.mem_cons_of_mem _ hy))
      (fun y hy => hchanged.opens ht hl (hdirs y (List.mem_cons_of_mem _ hy)))
      fun y hy => ⟨fun hd => (hfree y (List.mem_cons_of_mem _ hy)).1 (hback _ hd),
        fun hd => (hfree y (List.mem_cons_of_mem _ hy)).2 (hback _ hd)⟩
    exact ⟨u, .cons (Prod.ext rfl hok) hu⟩

end Runs

end Sheet

end Cascade
