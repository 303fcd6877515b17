import Unleashed.Zfs.Compress.Zle

/-!
# LZJB (`lzjb.c`)

The compressed data are groups of a control byte and up to eight items. An item is a literal
byte, or, where the control byte has a bit, a length and an offset back into the data. The
compressor finds its matches through `lempel`, a table of the last address with a given hash,
truncated to sixteen bits. A slot that was never set holds zero, which is taken for an address
like any other.

The source is a block at the address `addr`; pointers into it are positions, and comparisons of
pointers are comparisons of integers, so nothing wraps at the ends of the address space.
-/

namespace Unleashed.Zfs

open Lib

def matchMin : Nat := 3
def matchMax : Nat := 66
def offsetMask : Nat := 1023

/-! ## `lzjb_compress` -/

/-- The index into `lempel`, masked by `LEMPEL_SIZE - 1`. -/
def lzjbHash (a b c : Uchar) : Nat :=
  let hash := (a.toNat <<< 16) + (b.toNat <<< 8) + c.toNat
  let hash := hash + hash >>> 9
  let hash := hash + hash >>> 5
  hash &&& 1023

structure LzjbState where
  src : Nat
  out : List Uchar
  (copymap copymask : Nat)
  lempel : Nat → Nat

section
variable (addr : Nat) (s : Block Uchar) (dLen : Nat)

/-- The next bit of the control byte, or a new one; `none` without room for a group. -/
def lzjbGroup (st : LzjbState) : Except Fault (Option LzjbState) :=
  if st.copymask * 2 = 256 then
    if (st.out.length : Int) ≥ dLen - 1 - 2 * 8 then .ok none
    else do
      let out ← push dLen st.out 0
      .ok (some { st with copymask := 1, copymap := st.out.length, out := out })
  else .ok (some { st with copymask := st.copymask * 2 })

/-- `*dst++ = *src++`. -/
def lzjbLiteral (st : LzjbState) : Except Fault LzjbState := do
  let a ← s.read st.src
  let out ← push dLen st.out a
  .ok { st with src := st.src + 1, out := out }

/-- `(src - *hp) & OFFSET_MASK`. -/
def lzjbOffset (src hp : Nat) : Nat := (((addr + src : Nat) : Int) - hp).emod (offsetMask + 1) |>.toNat

/-- Whether there is a match of three bytes at `cpy = src - offset`. -/
def lzjbFound (src offset : Nat) (a b c : Uchar) : Except Fault Bool :=
  if offset ≤ src ∧ offset ≠ 0 then do
    let x ← s.read (src - offset)
    let y ← s.read (src - offset + 1)
    let z ← s.read (src - offset + 2)
    .ok (a = x ∧ b = y ∧ c = z)
  else .ok false

/-- The loop for the length of the match, with `k` bytes left. -/
def lzjbMatchLen (src cpy : Nat) : (k mlen : Nat) → Except Fault Nat
  | 0, mlen => .ok mlen
  | k + 1, mlen => do
    let a ← s.read (src + mlen)
    let b ← s.read (cpy + mlen)
    if a ≠ b then .ok mlen else lzjbMatchLen src cpy k (mlen + 1)

/-- `*copymap |= copymask`. -/
def lzjbMark (st : LzjbState) : Except Fault (List Uchar) :=
  match st.out[st.copymap]? with
  | none => .error .bounds
  | some m => .ok (st.out.set st.copymap (m ||| BitVec.ofNat 8 st.copymask))

def lzjbMatch (offset : Nat) (st : LzjbState) : Except Fault LzjbState := do
  let out ← lzjbMark st
  let mlen ← lzjbMatchLen s st.src (st.src - offset) (matchMax - matchMin) matchMin
  let out ← push dLen out (BitVec.ofNat 8 ((mlen - matchMin) <<< 2 ||| offset >>> 8))
  let out ← push dLen out (BitVec.ofNat 8 offset)
  .ok { st with src := st.src + mlen, out := out }

/-- One item. The last `MATCH_MAX - 1` bytes are literals. -/
def lzjbItem (st : LzjbState) : Except Fault LzjbState :=
  if (st.src : Int) > s.len - matchMax then lzjbLiteral s dLen st
  else do
    let a ← s.read st.src
    let b ← s.read (st.src + 1)
    let c ← s.read (st.src + 2)
    let offset := lzjbOffset addr st.src (st.lempel (lzjbHash a b c))
    let st := { st with lempel := Function.update st.lempel (lzjbHash a b c) ((addr + st.src) % 2 ^ 16) }
    let found ← lzjbFound s st.src offset a b c
    if found then lzjbMatch s dLen offset st else lzjbLiteral s dLen st

/-- The loop, for at most `fuel` items: the return value and what was written. -/
def lzjbCompressLoop : (fuel : Nat) → LzjbState → Except Fault (Nat × List Uchar)
  | 0, st => if st.src < s.len then .error .fuel else .ok (st.out.length, st.out)
  | fuel + 1, st =>
    if st.src < s.len then do
      match ← lzjbGroup dLen st with
      | none => .ok (s.len, st.out)
      | some st => do
        let st ← lzjbItem addr s dLen st
        lzjbCompressLoop fuel st
    else .ok (st.out.length, st.out)

def lzjbCompress : Except Fault (Nat × List Uchar) := lzjbCompressLoop addr s dLen s.len ⟨0, [], 0, 128, fun _ => 0⟩

end

/-! ## `lzjb_decompress` -/

structure LzjbDecState where
  src : Nat
  out : List Uchar
  copymap : Uchar
  copymask : Nat

section
variable (fresh : Nat → Except Fault Uchar) (s : Block Uchar) (dLen : Nat)

/-- The next bit of the control byte, or the next control byte. -/
def lzjbUngroup (st : LzjbDecState) : Except Fault LzjbDecState :=
  if st.copymask * 2 = 256 then do
    let m ← s.read st.src
    .ok { st with copymask := 1, copymap := m, src := st.src + 1 }
  else .ok { st with copymask := st.copymask * 2 }

/-- A byte of the destination: one written, or what `fresh` says. -/
def readBack (out : List Uchar) (i : Nat) : Except Fault Uchar :=
  match out[i]? with
  | some a => .ok a
  | none => fresh i

/-- `while (--mlen >= 0 && dst < d_end) *dst++ = *cpy++`. -/
def lzjbCopy : (mlen cpy : Nat) → List Uchar → Except Fault (List Uchar)
  | 0, _, out => .ok out
  | mlen + 1, cpy, out =>
    if out.length < dLen then do
      let a ← readBack fresh out cpy
      let out ← push dLen out a
      lzjbCopy mlen (cpy + 1) out
    else .ok out

/-- One item; `none` for a match that starts before the destination. -/
def lzjbUnitem (st : LzjbDecState) : Except Fault (Option LzjbDecState) :=
  if st.copymap.toNat &&& st.copymask ≠ 0 then do
    let a ← s.read st.src
    let b ← s.read (st.src + 1)
    let mlen := (a.toNat >>> 2) + matchMin
    let offset := ((a.toNat <<< 8) ||| b.toNat) &&& offsetMask
    if st.out.length < offset then .ok none
    else do
      let out ← lzjbCopy fresh dLen mlen (st.out.length - offset) st.out
      .ok (some { st with src := st.src + 2, out := out })
  else do
    let a ← s.read st.src
    let out ← push dLen st.out a
    .ok (some { st with src := st.src + 1, out := out })

/-- The loop, for at most `fuel` items. -/
def lzjbDecompressLoop : (fuel : Nat) → LzjbDecState → Except Fault (Int × List Uchar)
  | 0, st => if st.out.length < dLen then .error .fuel else .ok (0, st.out)
  | fuel + 1, st =>
    if st.out.length < dLen then do
      let st ← lzjbUngroup s st
      match ← lzjbUnitem fresh s dLen st with
      | none => .ok (-1, st.out)
      | some st => lzjbDecompressLoop fuel st
    else .ok (0, st.out)

/-- `lzjb_decompress`: the return value and what was written. `s_len` is not used. -/
def lzjbDecompress : Except Fault (Int × List Uchar) := lzjbDecompressLoop fresh s dLen dLen ⟨0, [], 0, 128⟩

end

end Unleashed.Zfs
