/-
# The enabled flags in the file

Reading a byte gives its eight bits, and the bits of a written byte are the flags packed in it.
The flags past the last full byte are written only when they are not seven.
-/

import Durs.Wot.File

namespace Durs

open RustStd

namespace WebOfTrust

/-! ## The bits of a byte -/

/-- The factor at a position of a byte. -/
def factorAt : Nat → UInt8
  | 0 => 128
  | i + 1 => factorAt i / 2

/-- What is left of a byte when the bits before a position have been taken off. -/
def restAt (byte : UInt8) : Nat → UInt8
  | 0 => byte
  | i + 1 =>
      if restAt byte i ≥ factorAt i then restAt byte i - factorAt i else restAt byte i

/-- The bit at a position of a byte, the most significant one first. -/
def bitAt (byte : UInt8) (i : Nat) : Bool := restAt byte i ≥ factorAt i

/-- Pack flags into a byte, with the factor of the next one. -/
def packFlags (flags : List Bool) : UInt8 × UInt8 :=
  flags.foldl (fun packed enable =>
    (if enable then packed.1 + packed.2 else packed.1, packed.2 / 2)) (0, 128)

theorem packFlags_append_singleton (flags : List Bool) (enable : Bool) :
    packFlags (flags ++ [enable]) =
      (if enable then (packFlags flags).1 + (packFlags flags).2 else (packFlags flags).1,
        (packFlags flags).2 / 2) := by
  rw [packFlags, List.foldl_append]
  rfl

theorem packFlags_append_replicate (flags : List Bool) (n : Nat) :
    (packFlags (flags ++ List.replicate n false)).1 = (packFlags flags).1 := by
  induction n with
  | zero => rw [List.replicate_zero, List.append_nil]
  | succ n ih =>
      rw [List.replicate_succ', ← List.append_assoc, packFlags_append_singleton, ← ih]
      rfl

set_option maxRecDepth 4000 in
theorem bitAt_packFlags_eight : ∀ a b c d e f g h : Bool,
    (List.range 8).map (bitAt (packFlags [a, b, c, d, e, f, g, h]).1) =
      [a, b, c, d, e, f, g, h] := by
  decide

/-- The bits of packed flags are the flags. -/
theorem bitAt_packFlags {flags : List Bool} (hlen : flags.length ≤ 8) {i : Nat} {enable : Bool}
    (h : flags[i]? = some enable) : bitAt (packFlags flags).1 i = enable := by
  have hi : i < flags.length := (List.getElem?_eq_some_iff.1 h).1
  have hpadded : (List.range 8).map (bitAt (packFlags flags).1) =
      flags ++ List.replicate (8 - flags.length) false := by
    rw [← packFlags_append_replicate flags (8 - flags.length)]
    have hlen8 : (flags ++ List.replicate (8 - flags.length) false).length = 8 := by
      rw [List.length_append, List.length_replicate, Nat.add_sub_cancel' hlen]
    match flags ++ List.replicate (8 - flags.length) false, hlen8 with
    | [a, b, c, d, e, f, g, h], _ => exact bitAt_packFlags_eight a b c d e f g h
  have hbit := congrArg (fun bits => bits[i]?) hpadded
  simp only [List.getElem?_map, List.getElem?_append_left hi, h,
    List.getElem?_range (Nat.lt_of_lt_of_le hi hlen), Option.map_some, Option.some.injEq] at hbit
  exact hbit

/-- No bit of the byte zero is set. -/
theorem bitAt_zero_byte {i : Nat} (h : i < 8) : bitAt 0 i = false := by
  revert h
  revert i
  decide

/-! ## Writing the flags -/

/-- The flag that a written byte string holds for a node. -/
def flagAt (bytes : List UInt8) (n : Nat) : Bool := bitAt (bytes.getD (n / 8) 0) (n % 8)

/-- What the writing loop has done after some nodes: the full bytes are in the buffer, and the
flags after them are packed. -/
def statesWritten (wot : WebOfTrust) (n : Nat) : StatesWriter :=
  let packed := packFlags ((wot.flags.take n).drop (8 * (n / 8)))
  { buffer := (List.range (n / 8)).map fun i => (packFlags ((wot.flags.drop (8 * i)).take 8)).1
    enableStates := packed.1
    factor := packed.2 }

variable {wot : WebOfTrust}

/-- One turn of the writing loop. -/
theorem writeState_statesWritten {n : Nat} (h : n < wot.size) :
    wot.writeState (wot.statesWritten n) n = .ok (wot.statesWritten (n + 1)) := by
  have hlen : n < wot.flags.length := by rw [flags, List.length_map]; exact h
  have hflag : wot.isEnabled n = some wot.flags[n] := by
    rw [isEnabled_eq, List.getElem?_eq_getElem hlen]
  have hpack : ∀ start ≤ n, packFlags ((wot.flags.take (n + 1)).drop start) =
      (if wot.flags[n] then (packFlags ((wot.flags.take n).drop start)).1 +
          (packFlags ((wot.flags.take n).drop start)).2
        else (packFlags ((wot.flags.take n).drop start)).1,
        (packFlags ((wot.flags.take n).drop start)).2 / 2) := by
    intro start hstart
    have htake : start ≤ (wot.flags.take n).length := by
      rw [List.length_take]
      omega
    rw [List.take_succ_eq_append_getElem hlen, List.drop_append_of_le_length htake,
      packFlags_append_singleton]
  have hstart : 8 * (n / 8) ≤ n := Nat.mul_div_le n 8
  rw [writeState, hflag]
  simp only
  split
  case isTrue hmod =>
    replace hmod : n % 8 = 7 := hmod
    have hdiv : (n + 1) / 8 = n / 8 + 1 := by omega
    have hdrop : (wot.flags.take (n + 1)).drop (8 * (n / 8 + 1)) = [] := by
      apply List.drop_eq_nil_of_le
      rw [List.length_take]
      omega
    have hfull : (wot.flags.take (n + 1)).drop (8 * (n / 8)) =
        (wot.flags.drop (8 * (n / 8))).take 8 := by
      rw [List.drop_take]
      congr 1
      omega
    rw [statesWritten, statesWritten, hdiv, hdrop, List.range_succ, List.map_append]
    simp only [List.map_cons, List.map_nil, ← hfull, hpack _ hstart]
    rfl
  case isFalse hmod =>
    replace hmod : n % 8 ≠ 7 := hmod
    have hdiv : (n + 1) / 8 = n / 8 := by omega
    rw [statesWritten, statesWritten, hdiv]
    simp only [hpack _ hstart]

/-- The writing loop writes the flags of the nodes it has gone through. -/
theorem foldlM_writeState {n : Nat} (h : n ≤ wot.size) :
    (List.range n).foldlM wot.writeState { buffer := [], enableStates := 0, factor := 128 } =
      .ok (wot.statesWritten n) := by
  induction n with
  | zero => rfl
  | succ n ih =>
      rw [List.range_succ, List.foldlM_append, ih (Nat.le_of_succ_le h), ok_bind,
        List.foldlM_cons, writeState_statesWritten h]
      rfl

/-- The bits of the byte in which a node is packed. -/
theorem bitAt_packFlags_drop {n : Nat} (hn : n < wot.size) :
    some (bitAt (packFlags ((wot.flags.drop (8 * (n / 8))).take 8)).1 (n % 8)) = wot.flags[n]? := by
  have hlen : n < wot.flags.length := by rw [flags, List.length_map]; exact hn
  have hi : n % 8 < 8 := Nat.mod_lt _ (by decide)
  have hflag : ((wot.flags.drop (8 * (n / 8))).take 8)[n % 8]? = some wot.flags[n] := by
    rw [List.getElem?_take_of_lt hi, List.getElem?_drop, Nat.div_add_mod,
      List.getElem?_eq_getElem hlen]
  rw [bitAt_packFlags (List.length_take_le ..) hflag, List.getElem?_eq_getElem hlen]

/-- The bytes of the flags: one for every eight nodes and one for the others, even when there are
none, but not when there are seven.  They hold the flags of the nodes they reach. -/
theorem writeStates_ok (wot : WebOfTrust) :
    ∃ bytes, wot.writeStates wot.size = .ok bytes ∧
      bytes.length = wot.size / 8 + (if wot.size % 8 ≠ 7 then 1 else 0) ∧
      (wot.size % 8 = 0 → bytes.drop (wot.size / 8) = [0]) ∧
      ∀ n < wot.size, n / 8 < bytes.length → some (flagAt bytes n) = wot.flags[n]? := by
  have hfull : ∀ n < wot.size, n / 8 < wot.size / 8 → ∀ rest : List UInt8,
      some (flagAt ((wot.statesWritten wot.size).buffer ++ rest) n) = wot.flags[n]? := by
    intro n hn hdiv rest
    have hbyte : ((wot.statesWritten wot.size).buffer ++ rest).getD (n / 8) 0 =
        (packFlags ((wot.flags.drop (8 * (n / 8))).take 8)).1 := by
      rw [List.getD_eq_getElem?_getD, List.getElem?_append_left (by simpa [statesWritten]),
        statesWritten, List.getElem?_map, List.getElem?_range hdiv]
      rfl
    rw [flagAt, hbyte, bitAt_packFlags_drop hn]
  rw [writeStates, foldlM_writeState (Nat.le_refl _), ok_bind]
  have hbuffer : (wot.statesWritten wot.size).buffer.length = wot.size / 8 := by
    simp [statesWritten]
  by_cases hmod : wot.size % 8 ≠ 7
  · refine ⟨_, rfl, ?_, ?_, ?_⟩
    · rw [if_pos hmod, if_pos hmod, List.length_append, List.length_singleton, hbuffer]
    · intro hzero
      have hnone : (wot.flags.take wot.size).drop (8 * (wot.size / 8)) = [] := by
        apply List.drop_eq_nil_of_le
        rw [List.length_take, flags_length]
        omega
      rw [if_pos hmod, List.drop_append_of_le_length (Nat.le_of_eq hbuffer.symm), ← hbuffer,
        List.drop_length, statesWritten, hnone]
      rfl
    · intro n hn hdiv
      rw [if_pos hmod]
      rw [if_pos hmod, List.length_append, List.length_singleton, hbuffer] at hdiv
      rcases Nat.lt_succ_iff_lt_or_eq.1 hdiv with hdiv | hdiv
      · exact hfull n hn hdiv _
      · have hlast : (wot.statesWritten wot.size).enableStates =
            (packFlags ((wot.flags.drop (8 * (n / 8))).take 8)).1 := by
          have htake : wot.flags.take wot.size = wot.flags :=
            List.take_of_length_le (by rw [flags, List.length_map]; exact Nat.le_refl _)
          have hshort : (wot.flags.drop (8 * (wot.size / 8))).take 8 =
              wot.flags.drop (8 * (wot.size / 8)) := by
            apply List.take_of_length_le
            rw [List.length_drop, flags, List.length_map]
            change wot.size - 8 * (wot.size / 8) ≤ 8
            omega
          rw [hdiv, statesWritten, htake, hshort]
        have hbyte : ((wot.statesWritten wot.size).buffer ++
            [(wot.statesWritten wot.size).enableStates]).getD (n / 8) 0 =
              (wot.statesWritten wot.size).enableStates := by
          rw [List.getD_eq_getElem?_getD, hdiv, ← hbuffer, List.getElem?_concat_length]
          rfl
        rw [flagAt, hbyte, hlast, bitAt_packFlags_drop hn]
  · refine ⟨_, rfl, ?_, ?_, ?_⟩
    · rw [if_neg hmod, if_neg hmod, hbuffer]
      rfl
    · intro hzero
      omega
    · intro n hn hdiv
      rw [if_neg hmod]
      rw [if_neg hmod, hbuffer] at hdiv
      have h := hfull n hn hdiv []
      rwa [List.append_nil] at h

/-! ## Reading the flags -/

/-- A node as the file gives it before its links are read. -/
def flagNode (enabled : Bool) : WotNode := { WotNode.new with enabled }

/-- The nodes that the first flags of a byte string give. -/
def nodesRead (bytes : List UInt8) (n : Nat) : List WotNode :=
  (List.range n).map fun i => flagNode (flagAt bytes i)

theorem nodesRead_succ (bytes : List UInt8) (n : Nat) :
    nodesRead bytes (n + 1) = nodesRead bytes n ++ [flagNode (flagAt bytes n)] := by
  rw [nodesRead, List.range_succ, List.map_append]
  rfl

theorem addNode_setEnabled_size (wot : WebOfTrust) :
    wot.addNode.setEnabled wot.size false =
      { wot with nodes := wot.nodes ++ [flagNode false] } := by
  rw [setEnabled, modifyNode, addNode, size]
  simp only [List.modify_eq_take_drop, List.take_left, List.drop_left]
  rfl

/-- The reading loop after some nodes. -/
def statesRead (nodesCount maxLinks : Nat) (bytes : List UInt8) (n : Nat) : StatesReader :=
  { wot := { nodes := nodesRead bytes n, maxLinks }, countRemainingNodes := nodesCount - n }

variable {nodesCount maxLinks : Nat} {bytes : List UInt8}

/-- One turn of the reading loop, while nodes remain. -/
theorem readState_of_lt {n i : Nat} {byte : UInt8} (hn : n < nodesCount)
    (hbit : bitAt byte i = flagAt bytes n) :
    readState nodesCount
        (statesRead nodesCount maxLinks bytes n, restAt byte i, factorAt i) =
      (statesRead nodesCount maxLinks bytes (n + 1), restAt byte (i + 1), factorAt (i + 1)) := by
  have hpos : nodesCount - n > 0 := Nat.sub_pos_of_lt hn
  have hid : nodesCount - (nodesCount - n) = n := Nat.sub_sub_self (Nat.le_of_lt hn)
  have hsize : (nodesRead bytes n).length = n := by simp [nodesRead]
  have hadd := addNode_setEnabled_size { nodes := nodesRead bytes n, maxLinks }
  rw [size, hsize] at hadd
  rw [readState, statesRead, statesRead]
  simp only [hpos, if_true, hid]
  rw [nodesRead_succ, ← hbit, bitAt, restAt, factorAt, Nat.sub_add_eq]
  split
  case isTrue hge =>
    simp only [hge, decide_true]
    rfl
  case isFalse hlt => simp only [hlt, decide_false, hadd]

/-- One turn of the reading loop, when no node remains. -/
theorem readState_of_le {n i : Nat} {byte : UInt8} (hn : nodesCount ≤ n) :
    readState nodesCount (statesRead nodesCount maxLinks bytes n, byte, factorAt i) =
      (statesRead nodesCount maxLinks bytes n, byte, factorAt (i + 1)) := by
  have hzero : nodesCount - n = 0 := Nat.sub_eq_zero_of_le hn
  rw [readState, statesRead, hzero]
  rfl

/-- The turns of the reading loop in a byte. -/
theorem foldl_readState (byteIndex i : Nat) (hi : i ≤ 8) :
    ∃ byte, (List.range i).foldl (fun r _ => readState nodesCount r)
        (statesRead nodesCount maxLinks bytes (min nodesCount (8 * byteIndex)),
          bytes.getD byteIndex 0, 128) =
        (statesRead nodesCount maxLinks bytes (min nodesCount (8 * byteIndex + i)), byte,
          factorAt i) ∧
      (8 * byteIndex + i ≤ nodesCount → byte = restAt (bytes.getD byteIndex 0) i) := by
  induction i with
  | zero => exact ⟨bytes.getD byteIndex 0, rfl, fun _ => rfl⟩
  | succ i ih =>
      rcases ih (Nat.le_of_succ_le hi) with ⟨byte, hfold, hbyte⟩
      rw [List.range_succ, List.foldl_append, hfold, List.foldl_cons, List.foldl_nil]
      rcases Nat.lt_or_ge (8 * byteIndex + i) nodesCount with hlt | hge
      · rw [hbyte (Nat.le_of_lt hlt), Nat.min_eq_right (Nat.le_of_lt hlt)]
        have hdiv : (8 * byteIndex + i) / 8 = byteIndex := by omega
        have hmod : (8 * byteIndex + i) % 8 = i := by omega
        have hbit : bitAt (bytes.getD byteIndex 0) i = flagAt bytes (8 * byteIndex + i) := by
          rw [flagAt, hdiv, hmod]
        rw [readState_of_lt hlt hbit, ← Nat.add_assoc, Nat.min_eq_right hlt]
        exact ⟨_, rfl, fun _ => rfl⟩
      · rw [Nat.min_eq_left hge, readState_of_le (Nat.le_refl _), ← Nat.add_assoc,
          Nat.min_eq_left (Nat.le_succ_of_le hge)]
        exact ⟨_, rfl, fun hle => absurd hle (Nat.not_le_of_lt (Nat.lt_succ_of_le hge))⟩

/-- Reading a byte adds its nodes, as far as nodes remain. -/
theorem readStateByte_eq (byteIndex : Nat) :
    readStateByte nodesCount
        (statesRead nodesCount maxLinks bytes (min nodesCount (8 * byteIndex)))
        (bytes.getD byteIndex 0) =
      statesRead nodesCount maxLinks bytes (min nodesCount (8 * (byteIndex + 1))) := by
  rcases foldl_readState byteIndex 8 (Nat.le_refl 8) with ⟨byte, hfold, -⟩
  rw [readStateByte, hfold, Nat.mul_succ]

/-- The nodes that reading the flags gives. -/
theorem readStates_eq (h : nodesCount ≤ 8 * bytes.length) :
    readStates nodesCount bytes maxLinks = { nodes := nodesRead bytes nodesCount, maxLinks } := by
  have hfold : ∀ rest byteIndex, bytes.drop byteIndex = rest →
      rest.foldl (readStateByte nodesCount)
        (statesRead nodesCount maxLinks bytes (min nodesCount (8 * byteIndex))) =
      statesRead nodesCount maxLinks bytes (min nodesCount (8 * (byteIndex + rest.length))) := by
    intro rest
    induction rest with
    | nil =>
        intro byteIndex _
        rfl
    | cons byte rest ih =>
        intro byteIndex hdrop
        have hget : bytes.getD byteIndex 0 = byte := by
          have hhead : (bytes.drop byteIndex)[0]? = bytes[byteIndex + 0]? := List.getElem?_drop
          rw [hdrop, Nat.add_zero] at hhead
          rw [List.getD_eq_getElem?_getD, ← hhead]
          rfl
        have hrest : bytes.drop (byteIndex + 1) = rest := by
          rw [← List.drop_drop, hdrop]
          rfl
        rw [List.foldl_cons, ← hget, readStateByte_eq, ih (byteIndex + 1) hrest, List.length_cons,
          Nat.add_right_comm, Nat.add_assoc]
  have hall := hfold bytes 0 rfl
  rw [Nat.zero_add, Nat.min_eq_left h, Nat.mul_zero, Nat.min_zero] at hall
  rw [readStates]
  exact congrArg StatesReader.wot hall

end WebOfTrust

end Durs
