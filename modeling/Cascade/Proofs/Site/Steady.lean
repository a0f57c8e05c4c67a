import Cascade.Proofs.FileTree.Steady
import Cascade.Proofs.Site.Coverage
import Cascade.Proofs.Site.Published
/-!
What a build keeps whatever links there are. Wherever they lead it, each directory stays and no link is
made; and if there are none below the output directory, the build changes nothing outside of it.
-/

namespace Cascade

open Path (IsName join descend)
open FileTree (Grown Hosts Steady)

variable {t : FileTree} {P : Location → Prop}

/-- A page is written where its directory and its two names lead. -/
theorem Page.write_steady (ht : t.WellFormed) {X n : String} (habs : Path.isAbsolute X = true)
    (hn : IsName n) (hplace : ∀ u, Steady P t u → Grown P u (u.makeDirAll (Path.trimEnd X)).1)
    (hfile : ∀ u, Steady P t u → ∀ m follow place, IsName m →
      u.resolve follow (join X m) = .ok place → P place.location) (html : Bytes) (forms : Forms) :
    Steady P t (write t (join X n) html forms).1 := by
  have hjoin : ∀ {m}, IsName m → Path.isAbsolute (join X m) = true := fun hm => by
    rw [Path.isAbsolute_join X hm.segment, habs]
  refine write_induct (I := Steady P t) hn (.refl P t) ?_ ?_ ?_ html forms
  · exact fun u hu => hu.trans (.of_grown (hplace u hu))
  · intro u m c hm hu
    have hname : IsName m := by
      rcases hm with rfl | rfl
      · exact hn
      · exact isName_gzipName hn
    exact hu.trans (FileTree.write_steady (hu.changed.wellFormed ht) (hjoin hname) c
      fun place => hfile u hu m true place hname)
  · exact fun u hu => hu.trans (FileTree.removeFile_steady (hu.changed.wellFormed ht) (hjoin hn)
      fun place => hfile u hu n false place hn)

namespace Sheet

variable {out : String} {O : Location} {x : Sheet} {xs : List Sheet}

theorem write_steady (ht : t.WellFormed) (hout : Path.isAbsolute out = true) (hx : x.Valid) :
    Steady (fun _ => True) t (x.write out t).1 := by
  have habs : Path.isAbsolute (descend out x.dir) = true := by
    rw [Path.isAbsolute_descend out hx.dir, hout]
  exact Page.write_steady ht habs hx.name
    (fun u _ => FileTree.makeDirAll_grown u (Path.isAbsolute_trimEnd habs))
    (fun _ _ _ _ _ _ _ => trivial) x.html x.forms

/-- Below an output directory without links, a page is written in it. -/
theorem write_within (h : t.Hosts out O) (hx : x.Valid) :
    Steady (O <+: ·) t (x.write out t).1 := by
  have habs : Path.isAbsolute (descend out x.dir) = true := by
    rw [Path.isAbsolute_descend out hx.dir, h.opens.absolute]
  refine Page.write_steady h.wellFormed habs hx.name (fun u hu => ?_) (fun u hu m follow place hm hr => ?_)
    x.html x.forms
  · exact (hu.hosts h).makeDirs_within hx.dir (Nat.lt_succ_self _)
  · rw [(hu.hosts h).location_of_resolve hx.dir hm hr, List.append_assoc]
    exact List.prefix_append _ _

theorem runAll_steady (hstep : ∀ u, Steady P t u → ∀ x ∈ xs, Steady P u (x.write out u).1) :
    Steady P t (runAll out t xs).1 := by
  induction xs generalizing t with
  | nil => exact .refl P t
  | cons x xs ih =>
    have hfirst := hstep t (.refl P t) x List.mem_cons_self
    rw [runAll_cons_fst]
    exact hfirst.trans (ih fun u hu y hy => hstep u (hfirst.trans hu) y (List.mem_cons_of_mem _ hy))

end Sheet

namespace Site

/-- An output directory that is there is not made again. -/
theorem ground_eq_of_opens {s : Site} {O : Location} (hO : t.Opens (s.absolute t.cwdPath).out O) :
    s.ground t = t := by
  unfold ground
  simp only [FileTree.makeDirAll, FileTree.ancestors, hO.makeDirs_fst, ite_self]

/-- A build removes no directory and makes no link, whatever becomes of its pages. -/
theorem steady_ground (s : Site) (ht : t.WellFormed) (scope : Option String) :
    Steady (fun _ => True) (s.ground t) (s.build t scope).1 := by
  rw [build_fst, runAll_eq_placed ht]
  refine Sheet.runAll_steady fun u hu x hx => ?_
  obtain ⟨turn, hturn, rfl⟩ := List.mem_map.mp hx
  have hwell := hu.changed.wellFormed ((s.grown_ground ht).wellFormed ht)
  exact Sheet.write_steady hwell (isAbsolute_out ht) (valid_placed ht hturn)

theorem build_steady (s : Site) (ht : t.WellFormed) (scope : Option String) :
    Steady (fun _ => True) t (s.build t scope).1 :=
  (Steady.of_grown (s.grown_ground ht)).trans (s.steady_ground ht scope)

/-- Without links, none is on the way from one directory that is visited to another. -/
theorem unlinked_of_visited (s : Site) (ht : t.WellFormed) (hl : t.LinkFree)
    (hdir : t.isDir (s.absolute t.cwdPath).src = true) {scope : Option String}
    (scope' : Option String) (ds : List String) {rest : List String}
    (h : ds ++ rest ∈ s.visited t scope) :
    (s.build t scope').1.Unlinked (descend (s.absolute t.cwdPath).src ds) rest := by
  obtain ⟨hsource, -⟩ := (mem_visited ht hdir).mp h
  have hground := s.grown_ground ht
  have hbuild := (s.steady_ground ht scope').changed
  have hfound : ∀ front, front <+: rest → FileTree.HasDirectory (s.build t scope').1
      (descend (descend (s.absolute t.cwdPath).src ds) front) := by
    intro front hfront
    obtain ⟨K, hK⟩ := (hsource.front ht ((List.prefix_append_right_inj ds).mpr hfront)).opens ht
    have hopens := hbuild.opens (hground.wellFormed ht) (hground.linkFree hl) hK
    rw [Path.descend_append] at hopens
    exact ⟨K, by rw [(hbuild.linkFree (hground.linkFree hl)).resolve_eq, hopens.resolve]⟩
  refine ⟨fun _ => ?_, fun front n hle => hfound _ hle⟩
  simpa using hfound [] List.nil_prefix

/-- Where no links are below the output directory, a build changes nothing outside of it. -/
theorem build_within (s : Site) (ht : t.WellFormed) {O : Location}
    (hout : (s.ground t).Hosts (s.absolute t.cwdPath).out O) (scope : Option String) :
    Steady (O <+: ·) (s.ground t) (s.build t scope).1 := by
  rw [build_fst, runAll_eq_placed ht]
  refine Sheet.runAll_steady fun u hu x hx => ?_
  obtain ⟨turn, hturn, rfl⟩ := List.mem_map.mp hx
  exact Sheet.write_within (hu.hosts hout) (valid_placed ht hturn)

end Site

end Cascade
