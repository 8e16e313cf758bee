import Mathlib.Data.List.Forall2
import Mathlib.Data.List.TakeDrop
import Terminator.Java.Blocks
import Terminator.Java.Text

/-!
# RSA, block by block

`CipherUtil.process` and the calls `RSAUtil` makes of it. What is longer than a block goes through
the cipher block by block, into an output array of 8 KB; the cipher itself is a parameter.

`processFrom_run` says what the loop comes to: the outputs of the blocks, if the array has room for
all of them. Encryption makes 128 bytes of 117, so it is the one that runs out of room.

* **`decrypt_encrypt_iff`**: encrypted data is decrypted to itself iff it has at most 64 blocks.
-/

namespace Terminator.Plugin

open Terminator.Java Terminator.Java.Blocks

/-- The checked exceptions of `doFinal`. -/
inductive CipherException where
  | illegalBlockSize
  | badPadding
  | shortBuffer
  deriving DecidableEq, Repr

/-- `javax.crypto.Cipher`, initialised: a function of the block it is given. -/
structure Cipher where
  doFinal : List Byte → Except CipherException (List Byte)
  /-- The room `doFinal` asks for in an output array, whatever it will write there. -/
  outputSize : Nat
  length_doFinal : ∀ block out, doFinal block = .ok out → out.length ≤ outputSize

namespace CipherUtil

/-- `OUTPUT_SIZE`. -/
def OUTPUT_SIZE : Nat := 8 * 1024

/-- `System.arraycopy` of all of `bytes` to an offset of an array. -/
def arraycopy (bytes output : List Byte) (offset : Nat) : List Byte :=
  output.take offset ++ (bytes ++ output.drop (offset + bytes.length))

/-- `doFinal(input, i, length, output, outputOffset)` on the block it names: the number of bytes
written, and the array. -/
def doFinalInto (cipher : Cipher) (block output : List Byte) (outputOffset : Nat) :
    Except CipherException (Nat × List Byte) :=
  if output.length - outputOffset < cipher.outputSize then .error .shortBuffer
  else
    match cipher.doFinal block with
    | .error e => .error e
    | .ok out => .ok (out.length, arraycopy out output outputOffset)

/-- The `for` loop at `i`, and the `subarray` behind it. -/
def processFrom (cipher : Cipher) (blockSize : Nat) (hpos : 0 < blockSize)
    (input : List Byte) (i : Nat) (output : List Byte) (outputSize : Nat) :
    Except CipherException (List Byte) :=
  if i + blockSize < input.length then
    match doFinalInto cipher ((input.drop i).take blockSize) output outputSize with
    | .error e => .error e
    | .ok (n, output) =>
      processFrom cipher blockSize hpos input (i + blockSize) output (outputSize + n)
  else
    match doFinalInto cipher ((input.drop i).take (input.length - i)) output outputSize with
    | .error e => .error e
    | .ok (n, output) => .ok (output.take (outputSize + n))
termination_by input.length - i
decreasing_by omega

/-- `process(cipher, blockSize, input)`. -/
def process (cipher : Cipher) (blockSize : Nat) (hpos : 0 < blockSize) (input : List Byte) :
    Except CipherException (List Byte) :=
  if input.length ≤ blockSize then cipher.doFinal input
  else processFrom cipher blockSize hpos input 0 (List.replicate OUTPUT_SIZE 0) 0

/-! ## The output array -/

theorem length_arraycopy {bytes output : List Byte} {offset : Nat}
    (h : offset + bytes.length ≤ output.length) :
    (arraycopy bytes output offset).length = output.length := by
  simp only [arraycopy, List.length_append, List.length_take, List.length_drop]
  omega

theorem take_arraycopy {bytes output : List Byte} {offset : Nat}
    (h : offset + bytes.length ≤ output.length) :
    (arraycopy bytes output offset).take (offset + bytes.length) = output.take offset ++ bytes := by
  have hlength : (output.take offset ++ bytes).length = offset + bytes.length := by
    rw [List.length_append, List.length_take, Nat.min_eq_left (by omega)]
  rw [arraycopy, ← List.append_assoc, ← hlength]
  exact List.take_left

/-- The outputs of the blocks to come all find room behind the `size` bytes written so far. -/
def Fits (room : Nat) : Nat → List (List Byte) → Prop
  | _, [] => True
  | size, out :: outs => size + room ≤ OUTPUT_SIZE ∧ Fits room (size + out.length) outs

theorem fits_of_le {room m : Nat} (hm : m ≤ room) {outs : List (List Byte)} {size : Nat}
    (houts : ∀ out ∈ outs, out.length ≤ m)
    (h : size + m * outs.length + (room - m) ≤ OUTPUT_SIZE) : Fits room size outs := by
  induction outs generalizing size with
  | nil => trivial
  | cons out outs ih =>
    rw [List.length_cons, Nat.mul_succ] at h
    have hout := houts out List.mem_cons_self
    exact ⟨by omega, ih (fun o ho => houts o (List.mem_cons_of_mem _ ho)) (by omega)⟩

/-- Outputs that fill the room they ask for leave less of it for the next ones. -/
theorem length_le_of_fits {room : Nat} {outs : List (List Byte)} {size : Nat}
    (houts : ∀ out ∈ outs, out.length = room) (hsize : size ≤ OUTPUT_SIZE)
    (h : Fits room size outs) : size + room * outs.length ≤ OUTPUT_SIZE := by
  induction outs generalizing size with
  | nil => simpa using hsize
  | cons out outs ih =>
    rw [List.length_cons, Nat.mul_succ]
    have hout := houts out List.mem_cons_self
    have hfirst := h.1
    have hrest := ih (fun o ho => houts o (List.mem_cons_of_mem _ ho)) (by omega) h.2
    omega

/-! ## The loop -/

section Loop

variable {cipher : Cipher} {n : Nat} {input : List Byte}

/-- The rest of the input, one block on. -/
theorem drop_of_cons {b : List Byte} {bs : List (List Byte)} {i : Nat} (hcut : Cut n (b :: bs))
    (hbs : bs ≠ []) (hi : input.drop i = (b :: bs).flatten) :
    Cut n bs ∧ input.drop (i + n) = bs.flatten := by
  obtain ⟨hlength, hrest⟩ := (cut_cons_iff hbs).mp hcut
  refine ⟨hrest, ?_⟩
  rw [← List.drop_drop, hi, List.flatten_cons, ← hlength, List.drop_left]

theorem doFinalInto_of_room {b out output : List Byte} {size : Nat}
    (hroom : size + cipher.outputSize ≤ output.length) (hout : cipher.doFinal b = .ok out) :
    doFinalInto cipher b output size = .ok (out.length, arraycopy out output size) := by
  rw [doFinalInto, if_neg (by omega), hout]

variable {hpos : 0 < n}

/-- One round, on an input that is cut into blocks from `i` on. -/
theorem processFrom_cons {b : List Byte} {bs : List (List Byte)} {i : Nat}
    (hcut : Cut n (b :: bs)) (hi : input.drop i = (b :: bs).flatten) (output : List Byte)
    (size : Nat) : processFrom cipher n hpos input i output size =
      match doFinalInto cipher b output size with
      | .error e => .error e
      | .ok (k, output) =>
        if bs = [] then .ok (output.take (size + k))
        else processFrom cipher n hpos input (i + n) output (size + k) := by
  have hlength := congrArg List.length hi
  rw [List.length_drop] at hlength
  have hfront := hcut.front
  rw [processFrom]
  by_cases hlast : n < (b :: bs).flatten.length
  · rw [if_pos hlast] at hfront
    obtain ⟨hbs, -, htake, -⟩ := hfront
    rw [if_pos (by omega), hi, htake]
    simp only [if_neg hbs]
  · rw [if_neg hlast] at hfront
    subst hfront
    rw [if_neg (by omega), hlength, hi, List.take_length]
    simp

/-- **The loop** returns the outputs of the blocks if they fit, and else throws. -/
theorem processFrom_run {bs outs : List (List Byte)} {i : Nat} {output : List Byte} {size : Nat}
    (hrun : List.Forall₂ (fun b out => cipher.doFinal b = .ok out) bs outs) (hcut : Cut n bs)
    (hi : input.drop i = bs.flatten) (houtput : output.length = OUTPUT_SIZE)
    (hroom : 0 < cipher.outputSize) :
    (Fits cipher.outputSize size outs →
      processFrom cipher n hpos input i output size = .ok (output.take size ++ outs.flatten)) ∧
    (¬ Fits cipher.outputSize size outs →
      processFrom cipher n hpos input i output size = .error .shortBuffer) := by
  induction hrun generalizing i output size with
  | nil => exact absurd rfl hcut.ne_nil
  | @cons b out bs outs hout hrest ih =>
    rw [processFrom_cons hcut hi]
    by_cases hfirst : size + cipher.outputSize ≤ OUTPUT_SIZE
    · have hle : size + out.length ≤ output.length := by
        have := cipher.length_doFinal b out hout
        omega
      rw [doFinalInto_of_room (by omega) hout]
      dsimp only
      by_cases hbs : bs = []
      · subst hbs
        cases hrest
        rw [if_pos rfl, take_arraycopy hle]
        exact ⟨fun _ => by simp, fun hno => absurd ⟨hfirst, trivial⟩ hno⟩
      · obtain ⟨hcut', hi'⟩ := drop_of_cons hcut hbs hi
        rw [if_neg hbs]
        have hwritten := (length_arraycopy hle).trans houtput
        obtain ⟨hfits, hshort⟩ := @ih (i + n) _ (size + out.length) hcut' hi' hwritten
        rw [take_arraycopy hle, List.append_assoc] at hfits
        exact ⟨fun h => hfits h.2, fun h => hshort fun h' => h ⟨hfirst, h'⟩⟩
    · have hshort : doFinalInto cipher b output size = .error .shortBuffer := by
        rw [doFinalInto, if_pos (by omega)]
      rw [hshort]
      exact ⟨fun h => absurd h.1 hfirst, fun _ => rfl⟩

theorem process_of_le (h : input.length ≤ n) :
    process cipher n hpos input = cipher.doFinal input := by
  rw [process, if_pos h]

/-- **`process`** on an input cut into blocks. -/
theorem process_run {bs outs : List (List Byte)}
    (hrun : List.Forall₂ (fun b out => cipher.doFinal b = .ok out) bs outs) (hcut : Cut n bs)
    (hroom : 0 < cipher.outputSize) (hsize : cipher.outputSize ≤ OUTPUT_SIZE) :
    (Fits cipher.outputSize 0 outs → process cipher n hpos bs.flatten = .ok outs.flatten) ∧
    (¬ Fits cipher.outputSize 0 outs → process cipher n hpos bs.flatten = .error .shortBuffer) := by
  by_cases hshort : bs.flatten.length ≤ n
  · -- one block, which `doFinal` takes without an output array
    obtain ⟨b, rfl⟩ : ∃ b, bs = [b] := by
      cases bs with
      | nil => exact absurd rfl hcut.ne_nil
      | cons b bs =>
        have hfront := hcut.front
        rw [if_neg (Nat.not_lt.mpr hshort)] at hfront
        exact ⟨b, by rw [hfront]⟩
    cases hrun with
    | @cons _ out _ _ hout hnil =>
      cases hnil
      have hfits : Fits cipher.outputSize 0 [out] := ⟨by omega, trivial⟩
      rw [process_of_le hshort]
      exact ⟨fun _ => by simpa using hout, fun h => absurd hfits h⟩
  · rw [process, if_neg hshort]
    exact processFrom_run hrun hcut rfl List.length_replicate hroom

end Loop

end CipherUtil

/-! ## Round trips -/

/-- The ciphers of a key pair: a block of at most 117 bytes is encrypted to 128 bytes, and these
are decrypted to it. -/
structure KeyPair where
  encrypt : Cipher
  decrypt : Cipher
  outputSize_encrypt : encrypt.outputSize = 128
  outputSize_decrypt : decrypt.outputSize = 128
  decrypt_encrypt : ∀ block : List Byte, block.length ≤ 117 →
    ∃ out, encrypt.doFinal block = .ok out ∧ out.length = 128 ∧ decrypt.doFinal out = .ok block

namespace RSAUtil

open CipherUtil

/-- `encryptByPublicKey(data, key)`, with the cipher of the key. -/
def encryptByPublicKey (cipher : Cipher) (data : List Byte) :
    Except CipherException (List Byte) := process cipher 117 (by decide) data

/-- `decryptByPrivateKey(data, key)`, with the cipher of the key. -/
def decryptByPrivateKey (cipher : Cipher) (data : List Byte) :
    Except CipherException (List Byte) := process cipher 128 (by decide) data

/-- The blocks of the data, the blocks they are encrypted to, and back. -/
theorem exists_encrypted (key : KeyPair) {bs : List (List Byte)}
    (hbs : ∀ b ∈ bs, b.length ≤ 117) :
    ∃ outs, List.Forall₂ (fun b out => key.encrypt.doFinal b = .ok out) bs outs ∧
      List.Forall₂ (fun out b => key.decrypt.doFinal out = .ok b) outs bs ∧
      ∀ out ∈ outs, out.length = 128 := by
  induction bs with
  | nil => exact ⟨[], .nil, .nil, nofun⟩
  | cons b bs ih =>
    obtain ⟨out, henc, hlength, hdec⟩ := key.decrypt_encrypt b (hbs b List.mem_cons_self)
    obtain ⟨outs, hencs, hdecs, hlengths⟩ := ih fun c hc => hbs c (List.mem_cons_of_mem _ hc)
    refine ⟨out :: outs, .cons henc hencs, .cons hdec hdecs, fun o ho => ?_⟩
    rcases List.mem_cons.mp ho with rfl | ho
    · exact hlength
    · exact hlengths o ho

/-- Decryption gives back what was encrypted in at most 64 blocks. -/
theorem process_decrypt (key : KeyPair) {bs outs : List (List Byte)}
    (hdecs : List.Forall₂ (fun out b => key.decrypt.doFinal out = .ok b) outs bs)
    (houts : ∀ out ∈ outs, out.length = 128) (hbs : ∀ b ∈ bs, b.length ≤ 117) (hne : outs ≠ [])
    (h : bs.length ≤ 64) : decryptByPrivateKey key.decrypt outs.flatten = .ok bs.flatten := by
  have hsize := key.outputSize_decrypt
  refine (process_run hdecs (cut_of_forall (by decide) hne houts) (by omega)
    (by rw [hsize, OUTPUT_SIZE]; omega)).1 ?_
  rw [hsize]
  exact fits_of_le (by decide) hbs (by rw [OUTPUT_SIZE]; omega)

/-- Encryption of data that is cut into blocks. -/
theorem process_encrypt (key : KeyPair) {bs outs : List (List Byte)} (hcut : Cut 117 bs)
    (hencs : List.Forall₂ (fun b out => key.encrypt.doFinal b = .ok out) bs outs)
    (houts : ∀ out ∈ outs, out.length = 128) :
    (bs.length ≤ 64 → encryptByPublicKey key.encrypt bs.flatten = .ok outs.flatten) ∧
      (¬ bs.length ≤ 64 → encryptByPublicKey key.encrypt bs.flatten = .error .shortBuffer) := by
  have hsize := key.outputSize_encrypt
  have hlength := hencs.length_eq
  have hfits : Fits key.encrypt.outputSize 0 outs ↔ bs.length ≤ 64 := by
    rw [hsize]
    constructor
    · intro h
      have hroom := length_le_of_fits houts (Nat.zero_le _) h
      rw [OUTPUT_SIZE] at hroom
      omega
    · intro h
      exact fits_of_le (Nat.le_refl _) (fun out hout => Nat.le_of_eq (houts out hout))
        (by rw [OUTPUT_SIZE]; omega)
  rw [← hfits]
  exact process_run hencs hcut (by omega) (by rw [hsize, OUTPUT_SIZE]; omega)

theorem decrypt_encrypt_nil (key : KeyPair) :
    (encryptByPublicKey key.encrypt [] >>= decryptByPrivateKey key.decrypt) = .ok [] := by
  obtain ⟨out, henc, hlength, hdec⟩ := key.decrypt_encrypt [] (Nat.zero_le _)
  have hone : encryptByPublicKey key.encrypt [] = .ok out :=
    (process_of_le (Nat.zero_le _)).trans henc
  rw [hone]
  exact (process_of_le (Nat.le_of_eq hlength)).trans hdec

/-- The data as the cipher sees it: its blocks and what they are encrypted to. -/
theorem exists_blocks (key : KeyPair) {data : List Byte} (hdata : data ≠ []) :
    ∃ bs outs, bs.flatten = data ∧ Cut 117 bs ∧ (bs.length ≤ 64 ↔ data.length ≤ 64 * 117) ∧
      List.Forall₂ (fun b out => key.encrypt.doFinal b = .ok out) bs outs ∧
      List.Forall₂ (fun out b => key.decrypt.doFinal out = .ok b) outs bs ∧
      ∀ out ∈ outs, out.length = 128 := by
  obtain ⟨bs, hcut, rfl⟩ := exists_cut (by decide : 0 < 117) data hdata
  obtain ⟨outs, hencs, hdecs, houts⟩ := exists_encrypted key hcut.length_le
  have hlength := hcut.length_flatten
  exact ⟨bs, outs, rfl, hcut, by omega, hencs, hdecs, houts⟩

/-- More data than 64 blocks does not get through the encryption. -/
theorem encrypt_of_long (key : KeyPair) {data : List Byte} (h : 64 * 117 < data.length) :
    encryptByPublicKey key.encrypt data = .error .shortBuffer := by
  have hdata : data ≠ [] := List.length_pos_iff.mp (by omega)
  obtain ⟨bs, outs, rfl, hcut, hcount, hencs, -, houts⟩ := exists_blocks key hdata
  exact (process_encrypt key hcut hencs houts).2 (by omega)

/-- **The round trip** gives the data back iff it is encrypted in at most 64 blocks. -/
theorem decrypt_encrypt_iff (key : KeyPair) (data : List Byte) :
    (encryptByPublicKey key.encrypt data >>= decryptByPrivateKey key.decrypt) = .ok data ↔
      data.length ≤ 64 * 117 := by
  constructor
  · intro h
    by_contra hlong
    rw [encrypt_of_long key (Nat.not_le.mp hlong)] at h
    cases h
  · intro h
    by_cases hdata : data = []
    · subst hdata
      exact decrypt_encrypt_nil key
    · obtain ⟨bs, outs, rfl, hcut, hcount, hencs, hdecs, houts⟩ := exists_blocks key hdata
      have hne : outs ≠ [] := by
        rintro rfl
        cases hencs
        exact hcut.ne_nil rfl
      rw [(process_encrypt key hcut hencs houts).1 (hcount.mpr h)]
      exact process_decrypt key hdecs houts hcut.length_le hne (hcount.mpr h)

/-- A block, padded to 128 bytes as PKCS #1 does it. -/
def pad (block : List Byte) : List Byte :=
  0 :: 2 :: (List.replicate (125 - block.length) 0xFF ++ 0 :: block)

def unpad (block : List Byte) : List Byte := ((block.drop 2).dropWhile (· != 0)).drop 1

theorem length_pad {block : List Byte} (h : block.length ≤ 117) : (pad block).length = 128 := by
  simp only [pad, List.length_cons, List.length_append, List.length_replicate]
  omega

theorem unpad_pad (block : List Byte) : unpad (pad block) = block := by
  have hfill : ∀ b ∈ List.replicate (125 - block.length) (0xFF : Byte), (b != 0) = true := by
    intro b hb
    rw [List.eq_of_mem_replicate hb]
    decide
  simp [unpad, pad, List.dropWhile_append_of_pos hfill]

/-- The padding alone, with no arithmetic behind it. -/
def padding : KeyPair where
  encrypt :=
    { doFinal := fun block =>
        if block.length ≤ 117 then .ok (pad block) else .error .illegalBlockSize
      outputSize := 128
      length_doFinal := by
        intro block out h
        split_ifs at h with hblock
        exact Except.ok.inj h ▸ Nat.le_of_eq (length_pad hblock) }
  decrypt :=
    { doFinal := fun block =>
        if block.length ≤ 128 then .ok (unpad block) else .error .badPadding
      outputSize := 128
      length_doFinal := by
        intro block out h
        split_ifs at h with hblock
        have hle := ((block.drop 2).dropWhile_suffix (· != 0)).length_le
        rw [← Except.ok.inj h, unpad, List.length_drop]
        rw [List.length_drop] at hle
        omega }
  outputSize_encrypt := rfl
  outputSize_decrypt := rfl
  decrypt_encrypt block h :=
    ⟨pad block, if_pos h, length_pad h,
      (if_pos (Nat.le_of_eq (length_pad h))).trans (by rw [unpad_pad])⟩

theorem not_decrypt_encrypt_replicate :
    (encryptByPublicKey padding.encrypt (List.replicate 7489 0) >>=
      decryptByPrivateKey padding.decrypt) ≠ .ok (List.replicate 7489 0) := by
  rw [encrypt_of_long padding (by rw [List.length_replicate]; omega)]
  exact nofun

end RSAUtil

end Terminator.Plugin
