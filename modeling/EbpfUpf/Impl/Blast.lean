import EbpfUpf.Framework.Bytes

/-!
# The checksum of the packet generators (`test/gtpu_blast.c`)

`ip_csum` with its two loops: the first adds up the halfwords in a `__u32`, the
second folds the sum until it fits 16 bits.
-/

open Framework

namespace UPF

/-- `while (len >= 2)`: the halfword at `p` is added. -/
def csum_add (data : Bytes) : (len p sum : Nat) → Nat
  | len + 2, p, sum => csum_add data len (p + 2) ((sum + data.get p 2) % 2 ^ 32)
  | _, _, sum => sum

/-- `while (sum >> 16)`. -/
def csum_fold (sum : Nat) : Nat :=
  if sum / 2 ^ 16 ≠ 0 then csum_fold (sum % 2 ^ 16 + sum / 2 ^ 16) else sum

def ip_csum (data : Bytes) (len : Nat) : Nat := 2 ^ 16 - 1 - csum_fold (csum_add data len 0 0) % 2 ^ 16

end UPF
