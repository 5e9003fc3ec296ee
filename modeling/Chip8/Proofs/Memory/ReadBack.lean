import Chip8.Proofs.Memory.Store

/-!
# Reading back what was stored

Bytes that are stored one after another can be read back as long as they are not more than memory
has places, so that the last ones do not fall on the first ones.
-/

namespace Chip8

theorem Address.wrap_add_ne_wrap {n k : Nat} (hpos : 0 < k) (hlt : k < memorySize) :
    wrap (n + k) ≠ wrap n := by
  intro h
  have hval := congrArg Fin.val h
  simp only [memorySize, val_wrap] at hlt hval
  omega

namespace Memory

variable {m : Memory} {w : Word} {bytes : List UInt8} {b : UInt8} {k : Nat}

theorem read_add_ofNat (m : Memory) (w : Word) (k : Nat) :
    m.read (w + UInt16.ofNat k) = m.get (.wrap (w.toNat + k)) := by
  have hplace := Word.wrap_add_ofNat w 0 k
  rw [Nat.add_zero, Nat.zero_add] at hplace
  rw [read, hplace]

theorem get_writeList_of_getElem? (hfit : bytes.length ≤ memorySize) (hk : bytes[k]? = some b) :
    (m.writeList w bytes).get (.wrap (w.toNat + k)) = b := by
  induction bytes generalizing m w k with
  | nil => cases hk
  | cons first bytes ih =>
      have hnext (k : Nat) : Address.wrap ((w + 1).toNat + k) = .wrap (w.toNat + (k + 1)) :=
        Word.wrap_add_ofNat w k 1
      cases k with
      | zero =>
          -- The bytes after the first one fall on other places, since there are enough.
          rw [writeList, get_writeList_of_ne, get_write, Nat.add_zero, if_pos rfl]
          · exact Option.some.inj hk
          · intro k hk'
            rw [hnext]
            exact Address.wrap_add_ne_wrap (Nat.succ_pos k)
              (Nat.lt_of_lt_of_le (Nat.succ_lt_succ hk') hfit)
      | succ k =>
          rw [writeList, ← hnext]
          exact ih (Nat.le_of_succ_le hfit) hk

end Memory

end Chip8
