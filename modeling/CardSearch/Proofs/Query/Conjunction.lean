import CardSearch.Proofs.Query.NormalForm
import CardSearch.Query.Encoding

/-!
# Conjunctions of queries

The conjunction of no queries, of one and of several are made in different ways, but simplified they
are the junction of the simplified conditions in each case. A junction of junctions is the junction
of all their conditions, in the same order. So it does not matter how queries are grouped before
they are joined: what comes out has the same condition, and with it the same digest.
-/

namespace CardSearch

open Condition

namespace Simplified.Junction

/-- A normal form that does not decide a junction is what its parts make up. -/
theorem close_parts (j : Junction) {c : Condition} (h : c.Normal) (hc : c ≠ .const j.absorbing) :
    j.close (j.parts c) = c := by
  obtain ⟨b, rfl⟩ | h := h
  · have hb : b = !j.absorbing := Bool.eq_not.2 fun heq => hc (congrArg _ heq)
    rw [parts_const, hb]
    rfl
  · by_cases hjoin : ∃ ds, c = j.join ds
    · obtain ⟨ds, rfl⟩ := hjoin
      rw [parts_join, j.close_of_two_le (j.reduced_join_iff.1 h).1]
    · rw [j.parts_of_fits ⟨h, fun ds heq => hjoin ⟨ds, heq⟩⟩]
      rfl

private theorem merge_singleton (j : Junction) {c : Condition} (h : c.Normal) :
    j.merge [c] = c := by
  by_cases hc : c = .const j.absorbing
  · rw [hc]
    exact if_pos (List.mem_singleton.2 rfl)
  · rw [j.merge_of_not_mem fun hmem => hc (List.mem_singleton.1 hmem).symm, List.flatMap_singleton]
    exact j.close_parts h hc

theorem merge_map_merge (j : Junction) {groups : List (List Condition)}
    (h : ∀ cs ∈ groups, ∀ c ∈ cs, c.Normal) :
    j.merge (groups.map j.merge) = j.merge groups.flatten := by
  have habsorbing : .const j.absorbing ∈ groups.map j.merge ↔
      .const j.absorbing ∈ groups.flatten := by
    rw [List.mem_map, List.mem_flatten]
    exact exists_congr fun cs => and_congr_right fun hcs => j.merge_eq_absorbing_iff (h cs hcs)
  -- one deciding condition decides its own group and the whole; else all parts come through
  by_cases hmem : .const j.absorbing ∈ groups.flatten
  · rw [merge, merge, if_pos (habsorbing.2 hmem), if_pos hmem]
  · have hparts : ∀ cs ∈ groups, j.parts (j.merge cs) = cs.flatMap j.parts := fun cs hcs =>
      j.parts_merge (h cs hcs) fun hconst => hmem (List.mem_flatten.2 ⟨cs, hcs, hconst⟩)
    rw [j.merge_of_not_mem (mt habsorbing.1 hmem), j.merge_of_not_mem hmem]
    congr 1
    calc (groups.map j.merge).flatMap j.parts
        = groups.flatMap fun cs => j.parts (j.merge cs) := List.flatMap_map ..
      _ = groups.flatMap fun cs => cs.flatMap j.parts := List.flatMap_congr hparts
      _ = groups.flatten.flatMap j.parts := by
        rw [List.flatMap_def, List.flatMap_def, List.map_flatten, List.flatten_flatten,
          List.map_map]
        rfl

end Simplified.Junction

namespace Query

variable {subsets : Dict Subset}

/-- However many queries there are, their conjunction simplifies to the junction of their simplified
conditions. -/
theorem simplified_conjunction (qs : List Query) :
    (conjunction subsets qs).condition.simplified subsets =
      Simplified.Junction.all.merge (qs.map fun q => q.condition.simplified subsets) := by
  unfold conjunction
  split
  · exact simplified_const true
  · next q =>
    exact (Simplified.Junction.all.merge_singleton (q.condition.normal_simplified subsets)).symm
  · have hsimplify : (simplify subsets ⟨PropertySet.unions (qs.map (·.properties)),
        .all (qs.map (·.condition))⟩).condition =
          (Condition.all (qs.map (·.condition))).simplified subsets := rfl
    rw [hsimplify, simplified_simplified, simplified_all, List.map_map]
    rfl

theorem simplified_conjunction_map (subsets : Dict Subset) (groups : List (List Query)) :
    (conjunction subsets (groups.map (conjunction subsets))).condition.simplified subsets =
      (conjunction subsets groups.flatten).condition.simplified subsets := by
  have hgroups : (groups.map (conjunction subsets)).map (fun q => q.condition.simplified subsets) =
      (groups.map (List.map fun q => q.condition.simplified subsets)).map
        Simplified.Junction.all.merge := by
    rw [List.map_map, List.map_map]
    exact List.map_congr_left fun qs _ => simplified_conjunction qs
  rw [simplified_conjunction, simplified_conjunction, hgroups, List.map_flatten]
  apply Simplified.Junction.merge_map_merge
  intro cs hcs c hc
  obtain ⟨qs, -, rfl⟩ := List.mem_map.1 hcs
  obtain ⟨q, -, rfl⟩ := List.mem_map.1 hc
  exact q.condition.normal_simplified subsets

structure SimplifiesAlike (subsets : Dict Subset) (p q : Query) : Prop where
  condition_eq : (p.simplify subsets).condition = (q.simplify subsets).condition
  digest_eq : (p.simplify subsets).digest = (q.simplify subsets).digest

theorem simplifiesAlike_of_simplified_eq {p q : Query}
    (h : p.condition.simplified subsets = q.condition.simplified subsets) :
    SimplifiesAlike subsets p q :=
  ⟨h, congrArg Condition.digest h⟩

private theorem simplifiesAlike_conjunction_map (subsets : Dict Subset)
    (groups : List (List Query)) :
    SimplifiesAlike subsets (conjunction subsets (groups.map (conjunction subsets)))
      (conjunction subsets groups.flatten) :=
  simplifiesAlike_of_simplified_eq (simplified_conjunction_map subsets groups)

/-- Joining two conjunctions comes to the same as joining all their queries, however many there are
on either side and whatever their conditions are. So joining is associative, and the query that
holds everywhere is its unit. -/
theorem conjunction_regroups (subsets : Dict Subset) :
    (∀ qs rs : List Query, SimplifiesAlike subsets
      (conjunction subsets [conjunction subsets qs, conjunction subsets rs])
      (conjunction subsets (qs ++ rs))) ∧
    (∀ p q r : Query, SimplifiesAlike subsets
      (conjunction subsets [conjunction subsets [p, q], r])
      (conjunction subsets [p, conjunction subsets [q, r]])) ∧
    ∀ q : Query, SimplifiesAlike subsets (conjunction subsets [all, q]) q ∧
      SimplifiesAlike subsets (conjunction subsets [q, all]) q := by
  refine ⟨fun qs rs => ?_, fun p q r => ?_, fun q => ⟨?_, ?_⟩⟩
  · have hgroups := simplifiesAlike_conjunction_map subsets [qs, rs]
    rwa [List.flatten_cons, List.flatten_cons, List.flatten_nil, List.append_nil] at hgroups
  · have hleft := simplified_conjunction_map subsets [[p, q], [r]]
    have hright := simplified_conjunction_map subsets [[p], [q, r]]
    exact simplifiesAlike_of_simplified_eq (hleft.trans hright.symm)
  · exact simplifiesAlike_conjunction_map subsets [[], [q]]
  · exact simplifiesAlike_conjunction_map subsets [[q], []]

end Query

end CardSearch
