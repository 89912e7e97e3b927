import DesignCompiler.Asset.Registry
import Mathlib.Data.List.Nodup
import Mathlib.Data.List.Perm.Subperm
import Mathlib.Data.Nat.Find

/-!
# Numbered names

A name in use gets a number, from two on. Among distinct candidates there is a free one after at
most as many as there are names in use, so the search for it ends, and it ends with the first.
-/

namespace DesignCompiler.Asset

/-- The first number from two on whose candidate is not in use. -/
structure IsFirstFree (taken : List String) (candidate : Nat → String) (index : Nat) : Prop where
  two_le : 2 ≤ index
  not_mem : candidate index ∉ taken
  mem_of_lt : ∀ earlier, 2 ≤ earlier → earlier < index → candidate earlier ∈ taken

private theorem exists_not_mem {candidate : Nat → String}
    (hcandidate : Function.Injective candidate) (taken : List String) :
    ∃ index, 2 ≤ index ∧ index ≤ 2 + taken.length ∧ candidate index ∉ taken := by
  by_contra hnone
  have htaken : (List.range' 2 (taken.length + 1)).map candidate ⊆ taken := by
    intro name hname
    obtain ⟨index, hindex, rfl⟩ := List.mem_map.mp hname
    rw [List.mem_range'_1] at hindex
    by_contra hfree
    exact hnone ⟨index, hindex.1, by omega, hfree⟩
  have hnodup : ((List.range' 2 (taken.length + 1)).map candidate).Nodup :=
    List.Nodup.map hcandidate List.nodup_range'
  have hlength := (hnodup.subperm htaken).length_le
  rw [List.length_map, List.length_range'] at hlength
  omega

/-- The search among distinct candidates ends. -/
theorem exists_isFirstFree {candidate : Nat → String} (hcandidate : Function.Injective candidate)
    (taken : List String) :
    ∃ index, IsFirstFree taken candidate index ∧ index ≤ 2 + taken.length := by
  have hexists := exists_not_mem hcandidate taken
  classical
  obtain ⟨htwo, hbound, hfree⟩ := Nat.find_spec hexists
  refine ⟨Nat.find hexists, ⟨htwo, hfree, fun earlier hearlier hlt => ?_⟩, hbound⟩
  by_contra hnot
  exact Nat.find_min hexists hlt ⟨hearlier, by omega, hnot⟩

theorem numbered_injective (base : String) :
    Function.Injective fun index : Nat => base ++ toString index := by
  intro i j heq
  have hdigits : toString i = toString j := (String.append_right_inj base).mp heq
  rw [Nat.toString_eq_ofList_toDigits, Nat.toString_eq_ofList_toDigits] at hdigits
  have hvalue := congrArg (fun text => Nat.ofDigitChars 10 text.toList 0) hdigits
  simpa using hvalue

/-- What the search for an identifier that is not in use ends with. -/
inductive IsFresh (taken : List String) (base : String) : String → Prop where
  | unused : base ∉ taken → IsFresh taken base base
  | numbered {index : Nat} : base ∈ taken →
      IsFirstFree taken (fun index => base ++ toString index) index →
      IsFresh taken base (base ++ toString index)

theorem IsFresh.not_mem {taken : List String} {base name : String}
    (hname : IsFresh taken base name) : name ∉ taken := by
  cases hname with
  | unused hbase => exact hbase
  | numbered _ hfree => exact hfree.not_mem

/-- A search that tries one number after another comes to the first free one, given enough steps. -/
theorem IsFirstFree.search_eq {taken : List String} {candidate : Nat → String} {index : Nat}
    (hindex : IsFirstFree taken candidate index) (search : Nat → Nat → String)
    (hzero : ∀ start, search 0 start = candidate start)
    (hsucc : ∀ fuel start, search (fuel + 1) start =
      if taken.contains (candidate start) then search fuel (start + 1) else candidate start)
    {fuel start : Nat} (hstart : start ≤ index) (htwo : 2 ≤ start) (hfuel : index ≤ start + fuel) :
    search fuel start = candidate index := by
  induction fuel generalizing start with
  | zero =>
    obtain rfl : start = index := by omega
    exact hzero start
  | succ fuel ih =>
    rw [hsucc]
    by_cases hhere : start = index
    · subst hhere
      rw [if_neg (by simpa using hindex.not_mem)]
    · have hmem := hindex.mem_of_lt start htwo (by omega)
      rw [if_pos (by simpa using hmem)]
      exact ih (by omega) (by omega) (by omega)

namespace Catalog

theorem isFresh_freshName (taken : List String) (base : String) :
    IsFresh taken base (freshName taken base) := by
  rw [freshName]
  by_cases hbase : base ∈ taken
  · rw [if_pos (by simpa using hbase)]
    obtain ⟨index, hindex, hbound⟩ := exists_isFirstFree (numbered_injective base) taken
    rw [hindex.search_eq (numberedName taken base) (fun _ => rfl) (fun _ _ => rfl)
      hindex.two_le le_rfl hbound]
    exact .numbered hbase hindex
  · rw [if_neg (by simpa using hbase)]
    exact .unused hbase

end Catalog

namespace AssetRegistry

/-- A file gets a name that no other file has. -/
theorem freshFileName_not_mem (taken : List String) (base ending : String) :
    freshFileName taken base ending ∉ taken := by
  rw [freshFileName]
  by_cases hbase : base ++ ending ∈ taken
  · rw [if_pos (by simpa using hbase)]
    have hcandidate :
        Function.Injective fun index : Nat => base ++ "_" ++ toString index ++ ending :=
      fun i j heq => numbered_injective (base ++ "_") ((String.append_left_inj ending).mp heq)
    obtain ⟨index, hindex, hbound⟩ := exists_isFirstFree hcandidate taken
    rw [hindex.search_eq (numberedFileName taken base ending) (fun _ => rfl)
      (fun _ _ => rfl) hindex.two_le le_rfl hbound]
    exact hindex.not_mem
  · rw [if_neg (by simpa using hbase)]
    exact hbase

end AssetRegistry

end DesignCompiler.Asset
