import Cascade.Proofs.Path.Place
/-!
Extensions of paths. Text behind a path is text behind its last segment, so that an extension that was
put behind a path can be taken away again.
-/

namespace Cascade.Path

/-- A path without the extension of its last component, and without the idle segments behind that. -/
def withoutExtension (path : String) : String :=
  match (segments path).reverse.dropWhile isIdle with
  | [] => path
  | s :: front =>
    if s = ".." then path else ofSegments (front.reverse ++ [(splitExtension s).1])

theorem segments_append (path : String) {back : String} (hback : '/' ∉ back.toList) :
    ∃ front s, segments path = front ++ [s] ∧ segments (path ++ back) = front ++ [s ++ back] := by
  rcases List.eq_nil_or_concat' (segments path) with hnil | ⟨front, s, hs⟩
  · exact absurd hnil (segments_ne_nil path)
  · have hslash : ∀ u ∈ front ++ [s], '/' ∉ u.toList := fun u hu =>
      not_mem_of_mem_segments (hs ▸ hu)
    refine ⟨front, s, hs, ?_⟩
    rw [← ofSegments_segments path, hs, ofSegments_concat_append]
    refine segments_ofSegments (by simp) fun u hu => ?_
    rcases List.mem_append.mp hu with hu | hu
    · exact hslash u (List.mem_append_left _ hu)
    · rw [List.mem_singleton.mp hu, String.toList_append, List.mem_append, not_or]
      exact ⟨hslash s (by simp), hback⟩

/-- An extension behind a name can be taken away again. -/
theorem withoutExtension_append {path ext : String} {front : List String} {s : String}
    (hs : segments path = front ++ [s]) (hname : IsName s) (hdot : '.' ∉ ext.toList)
    (hslash : '/' ∉ ext.toList) (hlong : 1 < ext.length) :
    withoutExtension (path ++ "." ++ ext) = path := by
  have hback : '/' ∉ ("." ++ ext).toList := by
    rw [String.toList_append, List.mem_append, not_or]
    exact ⟨by decide, hslash⟩
  have hext : IsName (s ++ ("." ++ ext)) :=
    hname.append hback (by rw [String.length_append]; change 2 < 1 + ext.length; omega)
  obtain ⟨front', s', hs', happend⟩ := segments_append path hback
  obtain ⟨rfl, hlast⟩ := List.append_inj' (hs.symm.trans hs') rfl
  obtain rfl : s = s' := by simpa using hlast
  rw [withoutExtension, String.append_assoc, happend, dropWhile_idle_reverse hext.not_idle]
  simp only [if_neg hext.2.2.1, List.reverse_reverse]
  rw [← String.append_assoc, splitExtension_append hname.1 hdot, ← hs, ofSegments_segments]

end Cascade.Path
