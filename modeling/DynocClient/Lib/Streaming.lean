import Mathlib.Data.List.Basic

/-!
# Messages that are taken in pieces

A block hash compresses the whole blocks of a message, and what is left is shorter than a block. A
message may come in pieces: what was left of the first ones goes in front of the next
(`consume_append`), so the state and the rest depend on the message only.
-/

namespace DynocClient.Lib.Streaming

variable {σ α : Type*} {compress : σ → List α → σ} {width : Nat}

/-- Compress the first blocks of a message, this many. -/
def compressBlocks (compress : σ → List α → σ) (width : Nat) : Nat → σ → List α → σ × List α
  | 0, state, message => (state, message)
  | count + 1, state, message =>
      compressBlocks compress width count (compress state (message.take width))
        (message.drop width)

/-- Compress all whole blocks of a message. -/
def consume (compress : σ → List α → σ) (width : Nat) (state : σ) (message : List α) :
    σ × List α :=
  compressBlocks compress width (message.length / width) state message

/-- What is left after some blocks. -/
theorem compress_blocks_rest (count : Nat) (state : σ) (message : List α) :
    (compressBlocks compress width count state message).2 = message.drop (width * count) := by
  induction count generalizing state message with
  | zero => rfl
  | succ count ih =>
      show (compressBlocks compress width count _ (message.drop width)).2 = _
      rw [ih, List.drop_drop, Nat.mul_succ, Nat.add_comm]

/-- What is left of a message is shorter than a block. -/
theorem consume_rest_length (state : σ) (message : List α) :
    (consume compress width state message).2.length = message.length % width := by
  have hdivision := Nat.div_add_mod message.length width
  unfold consume
  rw [compress_blocks_rest, List.length_drop]
  omega

/-- An empty message is nothing to compress. -/
@[simp] theorem consume_nil (state : σ) : consume compress width state [] = (state, []) := by
  unfold consume
  rw [List.length_nil, Nat.zero_div]
  rfl

/-- Less than a block is kept for later. -/
theorem consume_short {state : σ} {message : List α} (h : message.length < width) :
    consume compress width state message = (state, message) := by
  unfold consume
  rw [Nat.div_eq_of_lt h]
  rfl

/-- The first block is compressed first. -/
theorem consume_block {block : List α} (hblock : block.length = width) (hwidth : 0 < width)
    (state : σ) (rest : List α) :
    consume compress width state (block ++ rest) =
      consume compress width (compress state block) rest := by
  have hcount : (block ++ rest).length / width = rest.length / width + 1 := by
    rw [List.length_append, hblock, Nat.add_comm, Nat.add_div_right _ hwidth]
  have htake : (block ++ rest).take width = block := by rw [← hblock, List.take_left]
  have hdrop : (block ++ rest).drop width = rest := by rw [← hblock, List.drop_left]
  unfold consume
  rw [hcount]
  show compressBlocks compress width (rest.length / width) _ _ = _
  rw [htake, hdrop]

/-- One block is compressed, and nothing is kept. -/
theorem consume_one {block : List α} (hblock : block.length = width) (hwidth : 0 < width)
    (state : σ) : consume compress width state block = (compress state block, []) := by
  have h : consume compress width state (block ++ []) = _ := consume_block hblock hwidth state []
  rwa [List.append_nil, consume_nil] at h

/-- A message of whole blocks in front. -/
theorem consume_blocks (hwidth : 0 < width) {blocks : List α} {count : Nat}
    (hblocks : blocks.length = width * count) (state : σ) (rest : List α) :
    consume compress width state (blocks ++ rest) =
      consume compress width (consume compress width state blocks).1 rest := by
  induction count generalizing state blocks with
  | zero =>
      obtain rfl := List.length_eq_zero_iff.mp hblocks
      rw [consume_nil, List.nil_append]
  | succ count ih =>
      have hfirst : (blocks.take width).length = width := by
        rw [List.length_take, hblocks, Nat.mul_succ]
        omega
      have hrest : (blocks.drop width).length = width * count := by
        rw [List.length_drop, hblocks, Nat.mul_succ]
        omega
      rw [← List.take_append_drop width blocks, List.append_assoc,
        consume_block hfirst hwidth, consume_block hfirst hwidth]
      exact ih hrest _

/-- A message that comes in two pieces. -/
theorem consume_append (hwidth : 0 < width) (state : σ) (first second : List α) :
    consume compress width state (first ++ second) =
      consume compress width (consume compress width state first).1
        ((consume compress width state first).2 ++ second) := by
  have hsplit : first = first.take (width * (first.length / width)) ++
      (consume compress width state first).2 := by
    unfold consume
    rw [compress_blocks_rest, List.take_append_drop]
  have hlength : (first.take (width * (first.length / width))).length =
      width * (first.length / width) := by
    have hdivision := Nat.div_add_mod first.length width
    rw [List.length_take]
    omega
  -- the whole blocks of the first message are compressed either way
  have hwhole : (consume compress width state first).1 =
      (consume compress width state (first.take (width * (first.length / width)))).1 := by
    have hrest : (consume compress width state first).2.length < width := by
      rw [consume_rest_length]
      exact Nat.mod_lt _ hwidth
    conv_lhs => rw [hsplit]
    rw [consume_blocks hwidth hlength, consume_short hrest]
  conv_lhs => rw [hsplit, List.append_assoc]
  rw [consume_blocks hwidth hlength, ← hwhole]

end DynocClient.Lib.Streaming
