import Unleashed.Zfs.Raidz.Combrec

/-!
# Combinatorial reconstruction tries everything

The rounds of `vdev_raidz_combrec` try every set of columns without an error for which there is parity, once each.
-/

namespace Unleashed.Zfs

open Unleashed.Lib List RaidzMap

/-- The number of parity columns without an error, the rank of the first such data column. -/
def RaidzMap.validParity (rm : RaidzMap) : Nat :=
  ((range rm.rmFirstdatacol).filter fun c => (rm.rmCol c).rcError = 0).length

/-- The rank of the largest column in the first combination. -/
def RaidzMap.firstTop (rm : RaidzMap) (k : Nat) : Nat := if rm.dataErrors = 0 then rm.validParity else k

/-- The combinations of `k + 1` columns in the order tried. -/
def RaidzMap.round (rm : RaidzMap) (k : Nat) : List (List Nat) :=
  (colexFrom k (rm.firstTop k) rm.valid.length).map (·.map rm.validCol)

/-! ## The first combination of a round -/

variable {k r c : Nat}

section
variable {rm : RaidzMap}

lemma length_filter_error (rm : RaidzMap) (l : List Nat) :
    (l.filter fun c => (rm.rmCol c).rcError = 0).length + (l.filter fun c => (rm.rmCol c).rcError ≠ 0).length = l.length := by
  rw [length_eq_length_filter_add (l := l) fun c => decide ((rm.rmCol c).rcError = 0)]
  simp only [decide_not, ne_eq]

lemma RaidzMap.length_valid (rm : RaidzMap) : rm.valid.length + rm.totalErrors = rm.rmCols := by
  rw [valid, totalErrors, length_filter_error, length_range]

lemma RaidzMap.le_validParity (hf : rm.rmFirstdatacol ≤ rm.rmCols) :
    rm.rmFirstdatacol - rm.totalErrors ≤ rm.validParity := by
  have hparity := length_filter_error rm (range rm.rmFirstdatacol)
  have hle : ((range rm.rmFirstdatacol).filter fun c => (rm.rmCol c).rcError ≠ 0).length ≤ rm.totalErrors := by
    rw [totalErrors, range_split hf, filter_append, length_append]
    exact Nat.le_add_right _ _
  rw [length_range] at hparity
  unfold validParity
  omega

/-- Without errors the first data column comes after the valid parity columns. -/
lemma RaidzMap.valid_eq_cons (hf : rm.rmFirstdatacol < rm.rmCols) (h0 : rm.dataErrors = 0) : ∃ rest,
    rm.valid = ((range rm.rmFirstdatacol).filter fun c => (rm.rmCol c).rcError = 0) ++ rm.rmFirstdatacol :: rest := by
  have hnone := eq_nil_of_length_eq_zero h0
  have herr : (rm.rmCol rm.rmFirstdatacol).rcError = 0 := by
    by_contra hne
    have hmem : rm.rmFirstdatacol ∈ (range' rm.rmFirstdatacol (rm.rmCols - rm.rmFirstdatacol)).filter
        fun c => (rm.rmCol c).rcError ≠ 0 :=
      mem_filter.2 ⟨mem_range'_1.2 ⟨le_rfl, by omega⟩, decide_eq_true hne⟩
    rw [hnone] at hmem
    exact not_mem_nil hmem
  obtain ⟨j, hj⟩ : ∃ j, rm.rmCols - rm.rmFirstdatacol = j + 1 := ⟨rm.rmCols - rm.rmFirstdatacol - 1, by omega⟩
  rw [valid, range_split hf.le, filter_append, hj, range'_succ, filter_cons, if_pos (decide_eq_true herr)]
  exact ⟨_, rfl⟩

lemma RaidzMap.validCol_validParity (hf : rm.rmFirstdatacol < rm.rmCols) (h0 : rm.dataErrors = 0) :
    rm.validParity < rm.valid.length ∧ rm.validCol rm.validParity = rm.rmFirstdatacol := by
  obtain ⟨rest, hvalid⟩ := valid_eq_cons hf h0
  constructor
  · rw [hvalid, length_append, length_cons, validParity]
    omega
  · rw [validCol, hvalid, validParity, getD_append_right _ _ _ _ le_rfl, Nat.sub_self]
    rfl

lemma RaidzMap.firstTop_bounds (hl : rm.Layout) (hk : k < rm.rmFirstdatacol - rm.totalErrors) :
    k ≤ rm.firstTop k ∧ rm.firstTop k < rm.valid.length := by
  have hlt := hl.lt
  have hlen := rm.length_valid
  unfold firstTop
  split_ifs with h0
  · exact ⟨(hk.trans_le (le_validParity hlt.le)).le, (validCol_validParity hlt h0).1⟩
  · exact ⟨le_rfl, by omega⟩

lemma skipErrors_valid (hr : r < rm.valid.length) (hlo : rm.searchFrom r ≤ c)
    (hhi : c ≤ rm.validCol r) : skipErrors rm (rm.rmCols + 1) c = .ok (rm.validCol r) := by
  have := validCol_le_cols hr.le
  exact skipErrors_eq hr hlo hhi (by omega)

/-- **The targets at the start of a round** are the lowest columns, the largest pushed up into the data. -/
theorem initTargets_eq (hl : rm.Layout) (hk : k < rm.rmFirstdatacol - rm.totalErrors) :
    initTargets rm (k + 1) rm.dataErrors = .ok ((range k ++ [rm.firstTop k]).map rm.validCol) := by
  obtain ⟨hle, htop⟩ := firstTop_bounds hl hk
  -- the targets before the last one
  obtain ⟨s, hrun, rfl⟩ : ∃ s, forRangeM 0 k (initTarget rm (k + 1) rm.dataErrors) (0, []) = .ok s ∧
      s = (rm.searchFrom k, (range k).map rm.validCol) :=
    forRangeM_rule (fun i s => s = (rm.searchFrom i, (range i).map rm.validCol)) (Nat.zero_le k) rfl fun i s _ hi hs => by
      refine ⟨_, ?_, rfl⟩
      have hi' : i < rm.valid.length := by omega
      rw [hs, initTarget]
      dsimp only
      rw [if_neg (by omega), skipErrors_valid hi' le_rfl (searchFrom_le hi'.le), ok_bind, range_succ, map_append]
      rfl
  have hlast : initTarget rm (k + 1) rm.dataErrors k (rm.searchFrom k, (range k).map rm.validCol) =
      .ok (rm.validCol (rm.firstTop k) + 1, (range k ++ [rm.firstTop k]).map rm.validCol) := by
    have hk' : k < rm.valid.length := by omega
    unfold initTarget
    dsimp only
    by_cases h0 : rm.dataErrors = 0
    · obtain ⟨hlt, hfirst⟩ := validCol_validParity hl.lt h0
      have heq : rm.firstTop k = rm.validParity := if_pos h0
      have hbelow : rm.searchFrom k < rm.rmFirstdatacol := by
        rw [← hfirst]
        exact (searchFrom_le hk'.le).trans_lt (validCol_lt (hk.trans_le (le_validParity hl.lt.le)) hlt.le)
      have hfrom : rm.searchFrom rm.validParity ≤ rm.rmFirstdatacol := by
        rw [← hfirst]
        exact searchFrom_le hlt.le
      rw [if_pos ⟨rfl, h0, hbelow⟩, skipErrors_valid hlt hfrom hfirst.ge, ok_bind, heq, map_append]
      rfl
    · have heq : rm.firstTop k = k := if_neg h0
      rw [if_neg (fun h => h0 h.2.1), skipErrors_valid hk' le_rfl (searchFrom_le hk'.le), ok_bind, heq, map_append]
      rfl
  rw [initTargets, forRangeM_succ (Nat.zero_le k), hrun, ok_bind, hlast, ok_bind]

end

/-! ## What a round tries -/

section
variable {rm : RaidzMap}

/-- The rank of a valid column. -/
def RaidzMap.rank (rm : RaidzMap) (c : Nat) : Nat := rm.valid.idxOf c

lemma RaidzMap.rank_validCol (hr : r < rm.valid.length) : rm.rank (rm.validCol r) = r := by
  have hnodup : rm.valid.Nodup := nodup_range.filter _
  rw [rank, validCol, getD_eq_getElem _ _ hr]
  exact hnodup.idxOf_getElem r hr

lemma RaidzMap.validCol_rank (hc : c ∈ rm.valid) : rm.rank c < rm.valid.length ∧ rm.validCol (rm.rank c) = c := by
  have hlt : rm.rank c < rm.valid.length := idxOf_lt_length_of_mem hc
  refine ⟨hlt, ?_⟩
  rw [validCol, getD_eq_getElem _ _ hlt]
  exact getElem_idxOf hlt

variable {l : List Nat}

/-- The columns of sorted ranks are sorted, and the other way round. -/
lemma RaidzMap.sorted_map (hlt : ∀ a ∈ l, a < rm.valid.length) :
    (l.map rm.validCol).Pairwise (· < ·) ↔ l.Pairwise (· < ·) := by
  rw [pairwise_map]
  exact Pairwise.iff_of_mem fun ha hb => validCol_lt_iff (hlt _ ha).le (hlt _ hb).le

lemma lt_of_mem_colexFrom {lo m : Nat} (h : l ∈ colexFrom k lo m) : ∀ a ∈ l, a < m := by
  obtain ⟨l', x, rfl, -, hs, -, hx⟩ := mem_colexFrom.1 h
  intro a ha
  rcases mem_append.1 ha with h' | h'
  · exact ((sorted_concat.1 hs).2 a h').trans hx
  · exact (mem_singleton.1 h').trans_lt hx

/-- **A round tries the candidates of its size.** -/
theorem RaidzMap.mem_round (hl : rm.Layout) (hk : k < rm.rmFirstdatacol - rm.totalErrors) {t : List Nat} :
    t ∈ rm.round k ↔ t.length = k + 1 ∧ rm.Candidate t := by
  rw [round, mem_map]
  constructor
  · rintro ⟨l, hmem, rfl⟩
    have hlt := lt_of_mem_colexFrom hmem
    obtain ⟨l', x, rfl, hlen, hs, hlo, hx⟩ := mem_colexFrom.1 hmem
    have hlength : ((l' ++ [x]).map rm.validCol).length = k + 1 := by
      rw [length_map, length_append, hlen, length_singleton]
    refine ⟨hlength, (sorted_map hlt).2 hs, fun c hc => ?_, by omega, by omega, fun h0 c hlast => ?_⟩
    · obtain ⟨a, ha, rfl⟩ := mem_map.1 hc
      exact mem_valid.1 (validCol_mem (hlt a ha))
    · rw [map_append, map_cons, map_nil, List.getLast?_concat] at hlast
      obtain rfl := Option.some.inj hlast
      rw [firstTop, if_pos h0] at hlo
      rw [← (validCol_validParity hl.lt h0).2]
      exact validCol_le hlo hx.le
  · rintro ⟨hlen, hc⟩
    have hrank : ∀ c ∈ t, rm.rank c < rm.valid.length ∧ rm.validCol (rm.rank c) = c :=
      fun c h => validCol_rank (mem_valid.2 (hc.valid c h))
    have hmap : (t.map rm.rank).map rm.validCol = t := by
      rw [map_map]
      exact (map_congr_left fun c h => (hrank c h).2).trans (map_id t)
    have hlt : ∀ a ∈ t.map rm.rank, a < rm.valid.length := by
      intro a ha
      obtain ⟨c, h, rfl⟩ := mem_map.1 ha
      exact (hrank c h).1
    have hs : (t.map rm.rank).Pairwise (· < ·) := by
      rw [← sorted_map hlt, hmap]
      exact hc.sorted
    refine ⟨t.map rm.rank, mem_colexFrom.2 ?_, hmap⟩
    obtain ⟨t', c, rfl⟩ : ∃ t' c, t = t' ++ [c] := by
      rcases eq_nil_or_concat' t with rfl | h
      · exact absurd hlen (by simp)
      · exact h
    have hmemc : c ∈ t' ++ [c] := mem_append_right _ (mem_singleton_self c)
    obtain ⟨hclt, hcol⟩ := hrank c hmemc
    have hlen' : (t'.map rm.rank).length = k := by
      rw [length_map]
      simpa using hlen
    rw [map_append] at hs ⊢
    refine ⟨_, _, rfl, hlen', hs, ?_, hclt⟩
    unfold firstTop
    split_ifs with h0
    · obtain ⟨hlt', hfirst⟩ := validCol_validParity hl.lt h0
      by_contra hge
      have hcmp := validCol_lt (not_le.1 hge) hlt'.le
      rw [hcol, hfirst] at hcmp
      exact absurd (hc.data h0 c List.getLast?_concat) (not_le.2 hcmp)
    · rw [← hlen']
      exact length_le_of_sorted (sorted_concat.1 hs).1 (sorted_concat.1 hs).2

lemma RaidzMap.nodup_round (rm : RaidzMap) (k : Nat) : (rm.round k).Nodup := by
  apply Nodup.map_on _ nodup_colexFrom
  intro l hl l' hl' heq
  have hback : ∀ a ∈ colexFrom k (rm.firstTop k) rm.valid.length, (a.map rm.validCol).map rm.rank = a := by
    intro a ha
    rw [map_map]
    exact (map_congr_left fun r hr => rank_validCol (lt_of_mem_colexFrom ha r hr)).trans (map_id a)
  rw [← hback l hl, heq, hback l' hl']

end

/-! ## The rounds -/

/-- All attempts, in order. -/
def RaidzMap.attempts (rm : RaidzMap) : List (List Nat) :=
  (range (rm.rmFirstdatacol - rm.totalErrors)).flatMap rm.round

section
variable {rm0 : RaidzMap} (g : Bool) (verify : RaidzMap → Bool) (uninit : List Nat → ByteRows)

lemma RaidzMap.Kept.firstTop_eq {rm : RaidzMap} (hk : rm0.Kept rm) (k : Nat) : rm.firstTop k = rm0.firstTop k := by
  rw [firstTop, firstTop, validParity, validParity, hk.dataErrors_eq, hk.shape.firstdatacol]
  simp only [hk.error]

lemma set_getD_zero (l : List Nat) : l.set 0 (l.getD 0 0) = l := by cases l <;> rfl

lemma combrecRounds_spec (hl : rm0.Layout) {fuel : Nat} (count k : Nat) (rm : RaidzMap)
    (tried : List (List Nat × Bool)) (hk : rm0.Kept rm) (hcount : k + count ≤ rm0.rmFirstdatacol - rm0.totalErrors)
    (hfuel : ∀ j < rm0.rmFirstdatacol - rm0.totalErrors, (rm0.round j).length < fuel)
    (htried : ∀ a ∈ tried, rm0.Attempted g verify uninit a) :
    ∃ s, combrecRounds g verify uninit fuel rm0.dataErrors count (k + 1) rm tried = .ok s ∧
      Outcome rm0 ((range' k count).flatMap rm0.round) tried s ∧
      ∀ a ∈ s.tried, rm0.Attempted g verify uninit a := by
  induction count generalizing k rm tried with
  | zero => exact ⟨_, rfl, .failed rfl rfl (append_nil _).symm hk, htried⟩
  | succ count ih =>
    have hround : k < rm0.rmFirstdatacol - rm0.totalErrors := by omega
    obtain ⟨hle, htop⟩ := RaidzMap.firstTop_bounds hl hround
    have hinit : initTargets rm (k + 1) rm0.dataErrors = .ok ((range k ++ [rm0.firstTop k]).map rm0.validCol) := by
      rw [← hk.dataErrors_eq, initTargets_eq (hl.of_sameShape hk.shape) (by
        rw [hk.shape.firstdatacol, hk.totalErrors_eq]
        exact hround), hk.firstTop_eq, hk.validCol_eq]
    have hstart : rm0.Positioned (k + 1) ((range k ++ [rm0.firstTop k]).map rm0.validCol) 0
        (((range k ++ [rm0.firstTop k]).map rm0.validCol).getD 0 0) (some (range k ++ [rm0.firstTop k])) :=
      ⟨(Nat.succ_ne_zero k).symm, set_getD_zero _⟩
    obtain ⟨s, hrun, hout, hall⟩ := combrecLoop_spec g verify uninit hl (Nat.succ_pos k) (fun l h => by
        obtain ⟨l', x, rfl, hlen, hs, -, -⟩ := mem_colexFrom.1 h
        exact ⟨by rw [length_append, hlen, length_singleton], hs, lt_of_mem_colexFrom h⟩)
      (fun l h => ((RaidzMap.mem_round hl hround).1 (mem_map_of_mem h)).2) (walk_colexFrom hle htop) tried hk
      hstart (by
        have := hfuel k hround
        rwa [RaidzMap.round, length_map] at this) htried
    rw [combrecRounds, hinit, ok_bind, hrun, ok_bind, range'_succ, flatMap_cons]
    cases hout with
    | found done ret before t after split log =>
      rw [if_pos done]
      exact ⟨s, rfl, Outcome.extend (.found done ret before t after split log) done, hall⟩
    | failed done ret log kept =>
      rw [log] at hall
      rw [if_neg (by rw [done]; decide), log]
      obtain ⟨s', hrun', hout', hall'⟩ := ih (k + 1) s.rm _ kept (by omega) hall
      exact ⟨s', hrun', hout'.prepend, hall'⟩

/-- The candidates are tried by increasing size, each of them once. -/
lemma RaidzMap.attempts_spec (hl : rm0.Layout) : rm0.attempts.Nodup ∧ (∀ t, t ∈ rm0.attempts ↔ rm0.Candidate t) ∧
    rm0.attempts.Pairwise fun s t => s.length ≤ t.length := by
  have hround : ∀ k ∈ range (rm0.rmFirstdatacol - rm0.totalErrors), ∀ t ∈ rm0.round k, t.length = k + 1 :=
    fun k hk t ht => ((mem_round hl (mem_range.1 hk)).1 ht).1
  refine ⟨?_, fun t => ?_, ?_⟩
  · rw [attempts, nodup_flatMap]
    refine ⟨fun k _ => rm0.nodup_round k, nodup_range.imp_of_mem fun hj hk hne t ht ht' => hne ?_⟩
    have := hround _ hj t ht
    have := hround _ hk t ht'
    omega
  · rw [attempts, mem_flatMap]
    constructor
    · rintro ⟨k, hk, ht⟩
      exact ((mem_round hl (mem_range.1 hk)).1 ht).2
    · intro hc
      have h1 := hc.length_pos
      have h2 := hc.length_le
      have hk : t.length - 1 < rm0.rmFirstdatacol - rm0.totalErrors := by omega
      exact ⟨t.length - 1, mem_range.2 hk, (mem_round hl hk).2 ⟨by omega, hc⟩⟩
  · rw [attempts, pairwise_flatMap]
    refine ⟨fun k hk => pairwise_of_forall_mem_list fun s hs t ht => ?_,
      pairwise_lt_range.imp_of_mem fun hj hk hlt s hs t ht => ?_⟩
    · rw [hround k hk s hs, hround k hk t ht]
    · rw [hround _ hj s hs, hround _ hk t ht]
      omega

/-- **Combinatorial reconstruction is exhaustive and clean**: it tries the candidates by size, each once, until a
checksum is right, and otherwise leaves the columns as they were. -/
theorem combrec_exhaustive (hl : rm0.Layout) (herr : rm0.totalErrors < rm0.rmFirstdatacol) :
    ∃ all : List (List Nat), all.Nodup ∧ (∀ t, t ∈ all ↔ rm0.Candidate t) ∧ (all.Pairwise fun s t => s.length ≤ t.length) ∧
      ∃ enough, ∀ fuel ≥ enough, ∃ s, vdevRaidzCombrec g verify uninit fuel rm0 rm0.totalErrors rm0.dataErrors = .ok s ∧
        ((s.ret = 0 ∧ s.tried = all.map (·, false) ∧ ∀ c < rm0.rmCols, (rm0.rmCol c).rcError = 0 → ∀ k < (rm0.rmCol c).rcSize,
              (s.rm.rmCol c).rcAbd.buf k = (rm0.rmCol c).rcAbd.buf k) ∨
          s.ret ≠ 0 ∧ ∃ before t after, all = before ++ t :: after ∧ s.tried = before.map (·, false) ++ [(t, true)]) ∧
        ∀ a ∈ s.tried, rm0.Attempted g verify uninit a := by
  obtain ⟨hnodup, hmem, hsizes⟩ := attempts_spec hl
  have hkept : rm0.Kept rm0 := ⟨⟨rfl, rfl, fun _ => rfl⟩, fun _ => rfl, fun _ _ _ _ _ => rfl⟩
  refine ⟨rm0.attempts, hnodup, hmem, hsizes,
    ∑ j ∈ Finset.range (rm0.rmFirstdatacol - rm0.totalErrors), (rm0.round j).length + 1, fun fuel hfuel => ?_⟩
  obtain ⟨s, hrun, hout, hall⟩ := combrecRounds_spec g verify uninit hl (rm0.rmFirstdatacol - rm0.totalErrors) 0 rm0 []
    hkept (Nat.zero_add _).le
    (fun j hj => (Nat.lt_succ_of_le (Finset.single_le_sum (f := fun j => (rm0.round j).length)
      (fun _ _ => Nat.zero_le _) (Finset.mem_range.2 hj))).trans_le hfuel) fun a ha => absurd ha not_mem_nil
  rw [← List.range_eq_range'] at hout
  refine ⟨s, by rw [vdevRaidzCombrec, ASSERT_bind herr, hrun], ?_, hall⟩
  cases hout with
  | failed done ret log kept => exact .inl ⟨ret, log, kept.data⟩
  | found done ret before t after split log => exact .inr ⟨ret, before, t, after, split, log⟩

end

/-- Two data columns and double parity: one data column can be wrong, or any two columns with data among them. -/
def doubleCandidates : List (List Nat) := [[2], [3], [0, 2], [1, 2], [0, 3], [1, 3], [2, 3]]

lemma candidate_double {rm : RaidzMap} (hcols : rm.rmCols = 4) (hfirst : rm.rmFirstdatacol = 2)
    (htotal : rm.totalErrors = 0) (hdata : rm.dataErrors = 0) (herr : ∀ c < 4, (rm.rmCol c).rcError = 0) (t : List Nat) :
    rm.Candidate t ↔ t ∈ doubleCandidates := by
  constructor
  · intro hc
    have hle := hc.length_le
    have hpos := hc.length_pos
    have hvalid := fun c hm => (hc.valid c hm).1
    have hlow := hc.data hdata
    have hsorted := hc.sorted
    rw [hfirst] at hlow
    rw [hfirst, htotal] at hle
    rw [hcols] at hvalid
    match t, hle, hpos, hvalid, hlow, hsorted with
    | [a], _, _, hvalid, hlow, _ =>
      have ha := hvalid a mem_cons_self
      have ha' := hlow a rfl
      interval_cases a <;> decide
    | [a, b], _, _, hvalid, hlow, hsorted =>
      have hb := hvalid b (mem_cons_of_mem _ mem_cons_self)
      have hb' := hlow b rfl
      have hab : a < b := by simpa using hsorted
      interval_cases b <;> interval_cases a <;> decide
  · intro ht
    have hall : ∀ t ∈ doubleCandidates, t.Pairwise (· < ·) ∧ (∀ c ∈ t, c < 4) ∧ 0 < t.length ∧ t.length ≤ 2 ∧
        ∀ c ∈ t.getLast?, 2 ≤ c := by decide
    obtain ⟨hsorted, hvalid, hpos, hle, hlow⟩ := hall t ht
    exact ⟨hsorted, fun c hc => ⟨by rw [hcols]; exact hvalid c hc, herr c (hvalid c hc)⟩, hpos, by rw [hfirst, htotal]; exact hle,
      fun _ c hc => by rw [hfirst]; exact hlow c hc⟩

/-- A checksum that never comes out right: every candidate is tried, those of one column first. -/
theorem combrec_exhaustive_double : ∃ rm enough, ∀ fuel ≥ enough, ∃ s,
    vdevRaidzMapAlloc ⟨true, fun _ => 0xa5⟩ 1024 0 9 4 2 (fun _ _ => 0) = .ok rm ∧
    vdevRaidzCombrec false (fun _ => false) (fun _ _ _ => 0) fuel rm 0 0 = .ok s ∧ s.ret = 0 ∧
    s.tried.Perm (doubleCandidates.map (·, false)) ∧ s.tried.Pairwise fun a b => a.1.length ≤ b.1.length := by
  have hio : RaidzIo 1024 9 4 2 := ⟨by decide, by decide, by decide, by decide, by decide, by decide⟩
  obtain ⟨rm, halloc, hl, -⟩ := vdevRaidzMapAlloc_spec hio ⟨true, fun _ => 0xa5⟩ 0 fun _ _ => 0
  have hval : (vdevRaidzMapAlloc ⟨true, fun _ => 0xa5⟩ 1024 0 9 4 2 fun _ _ => 0).map (fun rm =>
      (rm.rmCols, rm.rmFirstdatacol, rm.totalErrors, rm.dataErrors, (List.range 4).map fun c => (rm.rmCol c).rcError)) =
      .ok (4, 2, 0, 0, [0, 0, 0, 0]) := rfl
  rw [halloc] at hval
  obtain ⟨hcols, hfirst, htotal, hdata, herr⟩ : rm.rmCols = 4 ∧ rm.rmFirstdatacol = 2 ∧ rm.totalErrors = 0 ∧
      rm.dataErrors = 0 ∧ (List.range 4).map (fun c => (rm.rmCol c).rcError) = [0, 0, 0, 0] := by
    simpa only [Prod.mk.injEq] using Except.ok.inj hval
  have herr' : ∀ c < 4, (rm.rmCol c).rcError = 0 := by
    intro c hc
    have hm : (rm.rmCol c).rcError ∈ [0, 0, 0, 0] := herr ▸ mem_map_of_mem (List.mem_range.2 hc)
    simpa using hm
  obtain ⟨all, hnodup, hmem, hsizes, enough, hrun⟩ := combrec_exhaustive false (fun _ => false) (fun _ _ _ => 0) hl (by omega)
  have hall : all.Perm doubleCandidates := by
    rw [perm_ext_iff_of_nodup hnodup (by decide)]
    intro t
    rw [hmem, candidate_double hcols hfirst htotal hdata herr']
  refine ⟨rm, enough, fun fuel hfuel => ?_⟩
  obtain ⟨s, hs, hout, hverdicts⟩ := hrun fuel hfuel
  rw [htotal, hdata] at hs
  rcases hout with ⟨hret, htried, -⟩ | ⟨-, before, t, after, -, htried⟩
  · exact ⟨s, halloc, hs, hret, htried ▸ hall.map _, htried ▸ pairwise_map.2 hsizes⟩
  · -- no verdict is right
    obtain ⟨_, _, _, -, -, hv⟩ := hverdicts (t, true) (by rw [htried]; exact List.mem_append_right _ (List.mem_singleton_self _))
    exact absurd hv Bool.false_ne_true

end Unleashed.Zfs
