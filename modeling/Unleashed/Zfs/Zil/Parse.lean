import Unleashed.Lib.Fault

/-!
# Parsing the intent log

`zil_parse` follows the chain of log blocks and calls back on each block and record. Of a block that has passed its
checksum it trusts the number of bytes in use and the record lengths.
-/

namespace Unleashed.Zfs

open Lib

/-- `SPA_OLD_MAXBLOCKSIZE`, the size of `lrbuf`. -/
def spaOldMaxblocksize : Nat := 131072

/-- `sizeof (zil_chain_t)` and `sizeof (lr_t)`. -/
def zilChainSize : Nat := 184
def lrSize : Nat := 32
def eCksum : Nat := 50

/-- `blk_cksum` of a log block: the chain, and the place in it. -/
structure ZilCksum where
  (guid0 guid1 objset seq : BitVec 64)
deriving DecidableEq

/-- The checksum that the next block of the chain has. -/
def ZilCksum.next (c : ZilCksum) : ZilCksum := { c with seq := c.seq + 1 }

/-- What the log reads of a block pointer. -/
structure ZilBlkptr where
  (isHole isZilog2 : Bool)
  lsizeField : BitVec 16
  cksum : ZilCksum
deriving DecidableEq

/-- `BP_GET_LSIZE`. -/
def ZilBlkptr.lsize (bp : ZilBlkptr) : Nat := (bp.lsizeField.toNat + 1) * 512

/-- A log block as it is read: its `zil_chain_t`, and all its bytes. -/
structure LogBlock where
  zcNextBlk : ZilBlkptr
  zcNused : BitVec 64
  data : Nat → BitVec 8

abbrev Lrbuf := Nat → BitVec 8

/-- `bcopy` from position `src` of a block of `size` bytes to the start of `lrbuf`. -/
def bcopyLr (b : LogBlock) (size src len : Nat) (dst : Lrbuf) : Except Fault Lrbuf :=
  if src + len ≤ size ∧ len ≤ spaOldMaxblocksize then .ok fun i => if i < len then b.data (src + i) else dst i
  else .error .bounds

/-- `lr_t`, and the bytes from its start on. -/
structure Lr where
  (lrcTxtype lrcReclen lrcSeq : BitVec 64)
  bytes : Nat → BitVec 8

/-- Eight bytes as a number. -/
def u64At (buf : Lrbuf) (pos : Nat) : BitVec 64 :=
  buf (pos + 7) ++ buf (pos + 6) ++ buf (pos + 5) ++ buf (pos + 4) ++ buf (pos + 3) ++ buf (pos + 2) ++ buf (pos + 1) ++ buf pos

def lrAt (buf : Lrbuf) (pos : Nat) : Lr :=
  ⟨u64At buf pos, u64At buf (pos + 8), u64At buf (pos + 24), fun i => buf (pos + i)⟩

/-- `int reclen`. -/
def Lr.reclen (lr : Lr) : Int := (lr.lrcReclen.setWidth 32).toInt

/-- `parse_blk_func` and `parse_lr_func`; the latter is told how many bytes were copied. -/
structure ParseFuncs (σ : Type) where
  blk : σ → ZilBlkptr → σ × Nat
  lr : σ → Lr → Nat → Except Fault (σ × Nat)

/-- The variables of `zil_parse`. -/
structure ParseState (σ : Type) where
  arg : σ
  (error maxBlkSeq maxLrSeq blkCount lrCount : Nat)

section
variable {σ : Type} (debug : Bool) (disk : ZilBlkptr → Except Nat LogBlock) (funcs : ParseFuncs σ)

/-- An `ASSERT`, which only a DEBUG kernel has. -/
def ASSERT_DEBUG (p : Prop) [Decidable p] : Except Fault Unit := ASSERT (debug = true → p)

/-- `zil_read_log_block`: the error, or the next block, `lrbuf` and its end. -/
def zilReadLogBlock (bp : ZilBlkptr) (dst : Lrbuf) : Except Fault (Except Nat (ZilBlkptr × Lrbuf × Nat)) :=
  match disk bp with
  | .error e => .ok (.error e)
  | .ok b =>
    if bp.isZilog2 then
      if bp.cksum.next ≠ b.zcNextBlk.cksum ∨ b.zcNextBlk.isHole then .ok (.error eCksum)
      else do
        ASSERT_DEBUG debug ((b.zcNused - zilChainSize).toNat ≤ spaOldMaxblocksize)
        let dst ← bcopyLr b bp.lsize zilChainSize (b.zcNused - zilChainSize).toNat dst
        .ok (.ok (b.zcNextBlk, dst, (b.zcNused - zilChainSize).toNat))
    else
      if bp.cksum.next ≠ b.zcNextBlk.cksum ∨ b.zcNextBlk.isHole ∨
          b.zcNused.toNat > bp.lsize - zilChainSize then .ok (.error eCksum)
      else do
        ASSERT_DEBUG debug (b.zcNused.toNat ≤ spaOldMaxblocksize)
        let dst ← bcopyLr b bp.lsize 0 b.zcNused.toNat dst
        .ok (.ok (b.zcNextBlk, dst, b.zcNused.toNat))

/-- The loop over the records of a block: whether the log goes on. -/
def parseRecords (claimLrSeq : Nat) (lrbuf : Lrbuf) (stop : Nat) :
    (fuel : Nat) → (lrp : Int) → ParseState σ → Except Fault (ParseState σ × Bool)
  | 0, lrp, st => if lrp < stop then .error .fuel else .ok (st, true)
  | fuel + 1, lrp, st =>
    if lrp < stop then
      if lrp < 0 ∨ (spaOldMaxblocksize : Int) < lrp + lrSize then .error .bounds
      else do
        ASSERT_DEBUG debug ((lrAt lrbuf lrp.toNat).reclen < 0 ∨ lrSize ≤ (lrAt lrbuf lrp.toNat).reclen)
        if (lrAt lrbuf lrp.toNat).lrcSeq.toNat > claimLrSeq then .ok (st, false)
        else do
          let r ← funcs.lr st.arg (lrAt lrbuf lrp.toNat) (stop - lrp.toNat)
          if r.2 ≠ 0 then .ok ({ st with arg := r.1, error := r.2 }, false)
          else do
            ASSERT_DEBUG debug (st.maxLrSeq < (lrAt lrbuf lrp.toNat).lrcSeq.toNat)
            parseRecords claimLrSeq lrbuf stop fuel (lrp + (lrAt lrbuf lrp.toNat).reclen)
              { st with arg := r.1, error := 0, maxLrSeq := (lrAt lrbuf lrp.toNat).lrcSeq.toNat, lrCount := st.lrCount + 1 }
    else .ok (st, true)

/-- Reading a block and its records: the next block and `lrbuf` if the log goes on. -/
def parseBlock (claimLrSeq recFuel : Nat) (blk : ZilBlkptr) (lrbuf : Lrbuf) (st : ParseState σ) :
    Except Fault (ParseState σ × Option (ZilBlkptr × Lrbuf)) := do
  match ← zilReadLogBlock debug disk blk lrbuf with
  | .error e => .ok ({ st with error := e }, none)
  | .ok (next, lrbuf, stop) =>
    let r ← parseRecords debug funcs claimLrSeq lrbuf stop recFuel 0 st
    .ok (r.1, if r.2 then some (next, lrbuf) else none)

/-- The loop over the chain, for at most `fuel` blocks. -/
def parseBlocks (claimBlkSeq claimLrSeq recFuel : Nat) :
    (fuel : Nat) → ZilBlkptr → Lrbuf → ParseState σ → Except Fault (Option (ParseState σ))
  | 0, _, _, _ => .ok none
  | fuel + 1, blk, lrbuf, st =>
    if blk.isHole ∨ blk.cksum.seq.toNat > claimBlkSeq then .ok (some st)
    else
      let r := funcs.blk st.arg blk
      if r.2 ≠ 0 then .ok (some { st with arg := r.1, error := r.2 })
      else do
        ASSERT_DEBUG debug (st.maxBlkSeq < blk.cksum.seq.toNat)
        let st := { st with arg := r.1, error := 0, maxBlkSeq := blk.cksum.seq.toNat, blkCount := st.blkCount + 1 }
        if st.maxLrSeq = claimLrSeq ∧ st.maxBlkSeq = claimBlkSeq then .ok (some st)
        else do
          match ← parseBlock debug disk funcs claimLrSeq recFuel blk lrbuf st with
          | (st, none) => .ok (some st)
          | (st, some (next, lrbuf)) => parseBlocks claimBlkSeq claimLrSeq recFuel fuel next lrbuf st

/-- What `zil_parse` reads of `zil_header_t`: `seqValid` is `ZIL_CLAIM_LR_SEQ_VALID`. -/
structure ZilHeader where
  (zhClaimTxg zhClaimBlkSeq zhClaimLrSeq : BitVec 64)
  zhLog : ZilBlkptr
  seqValid : Bool

def zilParse (zh : ZilHeader) (recFuel fuel : Nat) (lrbuf : Lrbuf) (arg : σ) : Except Fault (Option (ParseState σ)) := do
  let claimBlkSeq := if zh.zhClaimTxg ≠ 0 then zh.zhClaimBlkSeq.toNat else 2 ^ 64 - 1
  let claimLrSeq := if zh.zhClaimTxg ≠ 0 ∧ zh.seqValid then zh.zhClaimLrSeq.toNat else 2 ^ 64 - 1
  match ← parseBlocks debug disk funcs claimBlkSeq claimLrSeq recFuel fuel zh.zhLog lrbuf ⟨arg, 0, 0, 0, 0, 0⟩ with
  | none => .ok none
  | some st => do
    ASSERT_DEBUG debug (zh.zhClaimTxg = 0 ∨ zh.seqValid = false ∨ (st.maxBlkSeq = claimBlkSeq ∧ st.maxLrSeq = claimLrSeq))
    .ok (some st)

end

/-! ## What is trusted -/

/-- From `pos` on there are whole records up to the end. -/
inductive WholeRecords (lrbuf : Lrbuf) (stop : Nat) : Nat → Prop
  | done : WholeRecords lrbuf stop stop
  | more {pos : Nat} (min : lrSize ≤ (lrAt lrbuf pos).lrcReclen.toNat) (fits : pos + (lrAt lrbuf pos).lrcReclen.toNat ≤ stop)
      (rest : WholeRecords lrbuf stop (pos + (lrAt lrbuf pos).lrcReclen.toNat)) : WholeRecords lrbuf stop pos

/-- Where the records of a block are, and how many bytes of them. -/
def LogBlock.payload (b : LogBlock) (bp : ZilBlkptr) : Nat × Nat :=
  if bp.isZilog2 then (zilChainSize, (b.zcNused - zilChainSize).toNat) else (0, b.zcNused.toNat)

/-- The links of the chain, with the check of `zc_nused` in the old format. -/
def LogBlock.Linked (b : LogBlock) (bp : ZilBlkptr) : Prop :=
  bp.cksum.next = b.zcNextBlk.cksum ∧ b.zcNextBlk.isHole = false ∧
  (bp.isZilog2 = false → b.zcNused.toNat ≤ bp.lsize - zilChainSize)

/-- The payload is in the block, fits in `lrbuf` and is whole records. -/
def LogBlock.WellFormed (b : LogBlock) (bp : ZilBlkptr) : Prop :=
  (b.payload bp).1 + (b.payload bp).2 ≤ bp.lsize ∧ (b.payload bp).2 ≤ spaOldMaxblocksize ∧
  ∀ lrbuf : Lrbuf, WholeRecords (fun i => if i < (b.payload bp).2 then b.data ((b.payload bp).1 + i) else lrbuf i) (b.payload bp).2 0

/-- A record callback that can do with whole records. -/
def ParseFuncs.Accepts {σ : Type} (funcs : ParseFuncs σ) : Prop :=
  ∀ s lr room, lrSize ≤ lr.lrcReclen.toNat → lr.lrcReclen.toNat ≤ room → ∃ r, funcs.lr s lr room = .ok r

/-- Parsing the block stays in bounds and calls back on whole records only. -/
def SafeBlock (bp : ZilBlkptr) (b : LogBlock) : Prop :=
  ∃ recFuel, ∀ (σ : Type) (funcs : ParseFuncs σ), funcs.Accepts → ∀ (claimLrSeq : Nat) (lrbuf : Lrbuf) (st : ParseState σ),
    ∃ r, parseBlock false (fun _ => .ok b) funcs claimLrSeq recFuel bp lrbuf st = .ok r

section
variable {σ : Type} {funcs : ParseFuncs σ} {b : LogBlock} {bp : ZilBlkptr} {lrbuf : Lrbuf} {stop fuel pos : Nat}
  {disk : ZilBlkptr → Except Nat LogBlock}

lemma ASSERT_DEBUG_false (p : Prop) [Decidable p] : ASSERT_DEBUG false p = .ok () := ASSERT_eq_ok.2 (by simp)

lemma zilReadLogBlock_eq (hb : disk bp = .ok b) (hlink : b.Linked bp) : zilReadLogBlock false disk bp lrbuf =
      (bcopyLr b bp.lsize (b.payload bp).1 (b.payload bp).2 lrbuf).map fun dst => .ok (b.zcNextBlk, dst, (b.payload bp).2) := by
  obtain ⟨hck, hhole, hused⟩ := hlink
  unfold zilReadLogBlock LogBlock.payload
  rw [hb]
  dsimp only
  by_cases hz : bp.isZilog2 = true
  · rw [if_pos hz, if_pos hz, if_neg (by simp [hck, hhole]), ASSERT_DEBUG_false]
    rfl
  · have := hused (by simpa using hz)
    rw [if_neg hz, if_neg hz, if_neg (by simp [hck, hhole, this]), ASSERT_DEBUG_false]
    rfl

lemma zilReadLogBlock_unlinked (hb : disk bp = .ok b) (hlink : ¬ b.Linked bp) :
    zilReadLogBlock false disk bp lrbuf = .ok (.error eCksum) := by
  unfold LogBlock.Linked at hlink
  unfold zilReadLogBlock
  rw [hb]
  dsimp only
  by_cases hz : bp.isZilog2 = true
  · rw [if_pos hz, if_pos]
    by_contra hok
    simp only [not_or, not_not, Bool.not_eq_true] at hok
    exact hlink ⟨hok.1, hok.2, by simp [hz]⟩
  · rw [if_neg hz, if_pos]
    by_contra hok
    simp only [not_or, not_not, Bool.not_eq_true, not_lt] at hok
    exact hlink ⟨hok.1, hok.2.1, fun _ => hok.2.2⟩

lemma Lr.reclen_eq (lr : Lr) (h : lr.lrcReclen.toNat ≤ spaOldMaxblocksize) : lr.reclen = lr.lrcReclen.toNat := by
  have hlt : lr.lrcReclen.toNat < 2 ^ 31 := h.trans_lt (by decide)
  unfold Lr.reclen
  rw [BitVec.toInt_eq_toNat_of_lt, BitVec.toNat_setWidth, Nat.mod_eq_of_lt (by omega)]
  rw [BitVec.toNat_setWidth, Nat.mod_eq_of_lt (by omega)]
  omega

/-- **Step and run.** On whole records the loop returns. -/
theorem parseRecords_returns (claimLrSeq : Nat) (hfuncs : funcs.Accepts) (hstop : stop ≤ spaOldMaxblocksize)
    (h : WholeRecords lrbuf stop pos) : ∀ (fuel : Nat), stop ≤ pos + lrSize * fuel → ∀ st : ParseState σ,
      ∃ r, parseRecords false funcs claimLrSeq lrbuf stop fuel pos st = .ok r := by
  induction h with
  | done =>
    intro fuel _ st
    cases fuel <;> exact ⟨_, if_neg (by omega)⟩
  | @more pos min fits rest ih =>
    intro fuel hfuel st
    have h32 : lrSize = 32 := rfl
    obtain _ | fuel := fuel
    · omega
    obtain ⟨r, hr⟩ := hfuncs st.arg (lrAt lrbuf pos) (stop - pos) min (by omega)
    rw [parseRecords, if_pos (by omega), if_neg (by omega), ASSERT_DEBUG_false, ok_bind, Int.toNat_natCast]
    by_cases hseq : (lrAt lrbuf pos).lrcSeq.toNat > claimLrSeq
    · exact ⟨_, if_pos hseq⟩
    rw [if_neg hseq, hr, ok_bind]
    by_cases herr : r.2 ≠ 0
    · exact ⟨_, if_pos herr⟩
    rw [if_neg herr, ASSERT_DEBUG_false, ok_bind, Lr.reclen_eq _ (by omega), ← Nat.cast_add]
    exact ih fuel (by rw [Nat.mul_succ] at hfuel; omega) _

/-- A callback that looks at the whole of its record. -/
def strictFuncs : ParseFuncs Unit where
  blk _ _ := ((), 0)
  lr _ lr room := if lrSize ≤ lr.lrcReclen.toNat ∧ lr.lrcReclen.toNat ≤ room then .ok ((), 0) else .error .bounds

lemma strictFuncs_accepts : strictFuncs.Accepts := fun _ _ _ hmin hmax => ⟨_, if_pos ⟨hmin, hmax⟩⟩

lemma wholeRecords_of_returns (hstop : stop ≤ spaOldMaxblocksize) (hpos : pos ≤ stop) {st : ParseState Unit}
    {r : ParseState Unit × Bool} (h : parseRecords false strictFuncs (2 ^ 64) lrbuf stop fuel pos st = .ok r) :
    WholeRecords lrbuf stop pos := by
  induction fuel generalizing pos st with
  | zero =>
    rw [parseRecords] at h
    split_ifs at h with hlt
    obtain rfl : pos = stop := by omega
    exact .done
  | succ fuel ih =>
    rw [parseRecords] at h
    by_cases hlt : (pos : Int) < stop
    swap
    · obtain rfl : pos = stop := by omega
      exact .done
    have hseq : ¬ (lrAt lrbuf pos).lrcSeq.toNat > 2 ^ 64 := by
      have := (lrAt lrbuf pos).lrcSeq.isLt
      omega
    rw [if_pos hlt, Int.toNat_natCast] at h
    by_cases hbounds : (pos : Int) < 0 ∨ (spaOldMaxblocksize : Int) < pos + lrSize
    · rw [if_pos hbounds] at h
      cases h
    rw [if_neg hbounds, ASSERT_DEBUG_false, ok_bind, if_neg hseq] at h
    obtain ⟨r', hlr, h⟩ := bind_returns.1 h
    unfold strictFuncs at hlr
    dsimp only at hlr
    split_ifs at hlr with hrec
    obtain rfl := Except.ok.inj hlr
    rw [if_neg (by simp), ASSERT_DEBUG_false, ok_bind, Lr.reclen_eq _ (by omega), ← Nat.cast_add] at h
    exact .more hrec.1 (by omega) (ih (by omega) h)

/-- A block that is well formed, or whose links end the log, is parsed. -/
lemma parseBlock_returns (hwell : ∀ b, disk bp = .ok b → b.Linked bp → b.WellFormed bp) (hfuncs : funcs.Accepts)
    (claimLrSeq : Nat) (st : ParseState σ) :
    ∃ r, parseBlock false disk funcs claimLrSeq spaOldMaxblocksize bp lrbuf st = .ok r := by
  cases hb : disk bp with
  | error e =>
    rw [parseBlock, zilReadLogBlock, hb]
    exact ⟨_, rfl⟩
  | ok b =>
    by_cases hlink : b.Linked bp
    · obtain ⟨hin, hmax, hrecs⟩ := hwell b hb hlink
      obtain ⟨r, hr⟩ := parseRecords_returns claimLrSeq hfuncs hmax (hrecs lrbuf) spaOldMaxblocksize
        (by rw [show lrSize = 32 from rfl]; omega) st
      rw [parseBlock, zilReadLogBlock_eq hb hlink, bcopyLr, if_pos ⟨hin, hmax⟩]
      exact ⟨_, bind_returns.2 ⟨_, rfl, bind_returns.2 ⟨r, hr, rfl⟩⟩⟩
    · rw [parseBlock, zilReadLogBlock_unlinked hb hlink]
      exact ⟨_, rfl⟩

/-- The next block continues the sequence. -/
lemma parseBlock_next {claimLrSeq : Nat} {st st' : ParseState σ} {next : ZilBlkptr} {lrbuf' : Lrbuf}
    (h : parseBlock false disk funcs claimLrSeq fuel bp lrbuf st = .ok (st', some (next, lrbuf'))) :
    next.cksum = bp.cksum.next := by
  obtain ⟨_ | ⟨next', dst, stop⟩, hread, h⟩ := bind_returns.1 h
  · cases h
  · obtain ⟨r, -, h⟩ := bind_returns.1 h
    unfold zilReadLogBlock at hread
    grind [bind_returns]

variable (hdisk : ∀ bp b, disk bp = .ok b → b.Linked bp → b.WellFormed bp) (hfuncs : funcs.Accepts)
include hdisk hfuncs

/-- The sequence numbers bound the blocks of a claimed log. -/
lemma parseBlocks_returns (claimBlkSeq claimLrSeq fuel : Nat) (st : ParseState σ) :
    ∃ r, parseBlocks false disk funcs claimBlkSeq claimLrSeq spaOldMaxblocksize fuel bp lrbuf st = .ok r ∧
      (claimBlkSeq + 1 < 2 ^ 64 → claimBlkSeq + 1 - bp.cksum.seq.toNat < fuel → r ≠ none) := by
  induction fuel generalizing bp lrbuf st with
  | zero => exact ⟨none, rfl, by simp⟩
  | succ fuel ih =>
    rw [parseBlocks]
    dsimp only
    rw [ASSERT_DEBUG_false, ok_bind]
    split_ifs with hend
    any_goals exact ⟨_, rfl, by simp⟩
    · obtain ⟨⟨st', _ | ⟨next, lrbuf'⟩⟩, hr⟩ := parseBlock_returns (hdisk bp) hfuncs claimLrSeq _
      · exact ⟨_, bind_returns.2 ⟨_, hr, rfl⟩, by simp⟩
      · obtain ⟨r, hrest, hsome⟩ := ih st'
        refine ⟨r, bind_returns.2 ⟨_, hr, hrest⟩, fun hclaim hfuel => hsome hclaim ?_⟩
        have hseq : next.cksum.seq = bp.cksum.seq + 1 := by rw [parseBlock_next hr, ZilCksum.next]
        rw [hseq, BitVec.toNat_add_of_lt]
        all_goals grind

/-- **Run.** If every readable block is well formed or ends the log, the log is parsed. If it is claimed, parsing comes to
an end, whatever chain the disk has. -/
theorem zilParse_returns (zh : ZilHeader) (fuel : Nat) (arg : σ) :
    ∃ r, zilParse false disk funcs zh spaOldMaxblocksize fuel lrbuf arg = .ok r ∧
      (zh.zhClaimTxg ≠ 0 → zh.zhClaimBlkSeq.toNat + 1 < 2 ^ 64 →
        zh.zhClaimBlkSeq.toNat + 1 - zh.zhLog.cksum.seq.toNat < fuel → r ≠ none) := by
  obtain ⟨r, hr, hsome⟩ := parseBlocks_returns hdisk hfuncs _ _ fuel _
  refine ⟨r, bind_returns.2 ⟨r, hr, ?_⟩, fun hclaim => by rwa [if_pos hclaim] at hsome⟩
  cases r with
  | none => rfl
  | some st =>
    dsimp only
    rw [ASSERT_DEBUG_false, ok_bind]

end

/-- **What `zil_parse` relies on.** A block that has passed its checksum is parsed safely exactly if its links end the
log or it is well formed. -/
theorem zil_parse_block_safe_iff (bp : ZilBlkptr) (b : LogBlock) : SafeBlock bp b ↔ (b.Linked bp → b.WellFormed bp) := by
  constructor
  · rintro ⟨recFuel, hsafe⟩ hlink
    have hrun (lrbuf : Lrbuf) := hsafe Unit strictFuncs strictFuncs_accepts (2 ^ 64) lrbuf ⟨(), 0, 0, 0, 0, 0⟩
    have hread (lrbuf : Lrbuf) : zilReadLogBlock false (fun _ => .ok b) bp lrbuf = _ := zilReadLogBlock_eq rfl hlink
    simp only [parseBlock, hread] at hrun
    by_cases hfits : (b.payload bp).1 + (b.payload bp).2 ≤ bp.lsize ∧ (b.payload bp).2 ≤ spaOldMaxblocksize
    · refine ⟨hfits.1, hfits.2, fun lrbuf => ?_⟩
      obtain ⟨r, hr⟩ := hrun lrbuf
      rw [bcopyLr, if_pos hfits] at hr
      obtain ⟨read, hread, hr⟩ := bind_returns.1 hr
      obtain rfl := Except.ok.inj hread
      obtain ⟨r', hrec, -⟩ := bind_returns.1 hr
      exact wholeRecords_of_returns hfits.2 (Nat.zero_le _) hrec
    · obtain ⟨r, hr⟩ := hrun fun _ => 0
      rw [bcopyLr, if_neg hfits] at hr
      exact absurd hr (by simp [Except.map, Bind.bind, Except.bind])
  · intro hwell
    refine ⟨spaOldMaxblocksize, fun σ funcs hfuncs claimLrSeq lrbuf st => ?_⟩
    exact parseBlock_returns (by rintro _ ⟨⟩; exact hwell) hfuncs claimLrSeq st

/-- A 4 KB block in the new format whose header says that nothing is in use. -/
def unusedBlock : ZilBlkptr × LogBlock :=
  (⟨false, true, 7, ⟨1, 2, 3, 1⟩⟩, ⟨⟨false, true, 7, ⟨1, 2, 3, 2⟩⟩, 0, fun _ => 0⟩)

/-- The length wraps around, and the copy leaves the block. -/
theorem unused_block_copied_past_end :
    zilReadLogBlock false (fun _ => .ok unusedBlock.2) unusedBlock.1 (fun _ => 0) = .error .bounds := rfl

/-- A block of the log with the sequence number `seq`. -/
def logBlkptr (seq : BitVec 64) : ZilBlkptr := ⟨false, true, 7, ⟨1, 2, 3, seq⟩⟩

/-- Two blocks, each with one record of 32 bytes. -/
def twoBlockDisk (bp : ZilBlkptr) : Except Nat LogBlock :=
  if bp = logBlkptr 1 ∨ bp = logBlkptr 2 then
    .ok ⟨logBlkptr (bp.cksum.seq + 1), 216, fun i => if i = 192 then 32 else 0⟩
  else .error 5

lemma wholeRecords_record (lrbuf : Lrbuf) :
    WholeRecords (fun i => if i < 32 then if 184 + i = 192 then 32 else 0 else lrbuf i) 32 0 := by
  have hlen : (lrAt (fun i => if i < 32 then if 184 + i = 192 then 32 else 0 else lrbuf i) 0).lrcReclen = 32 := by
    simp [lrAt, u64At]
  refine .more ?_ ?_ ?_ <;> rw [hlen]
  · decide
  · decide
  · exact .done

theorem zilParse_returns_two : ∃ r, r ≠ none ∧
    zilParse false twoBlockDisk strictFuncs ⟨1, 9, 9, logBlkptr 1, true⟩ spaOldMaxblocksize 10 (fun _ => 0) () = .ok r := by
  obtain ⟨r, hr, hsome⟩ := zilParse_returns (fun bp b (hb : twoBlockDisk bp = .ok b) _ => by
    unfold twoBlockDisk at hb
    split_ifs at hb with hbp
    cases hb
    rcases hbp with rfl | rfl <;> exact ⟨by decide, by decide, wholeRecords_record⟩)
    strictFuncs_accepts ⟨1, 9, 9, logBlkptr 1, true⟩ 10 ()
  exact ⟨r, hsome (by decide) (by decide) (by decide), hr⟩

end Unleashed.Zfs
