import Mathlib

/-!
# IP addresses

An IPv4 address and its IPv6 mapping are one address, the IPv4 one.
-/

namespace Leone.Transport

/-- Four octets or eight segments, the first one first. -/
inductive IpAddr where
  | v4 (octets : {octets : List UInt8 // octets.length = 4})
  | v6 (segments : {segments : List UInt16 // segments.length = 8})
  deriving DecidableEq, Repr

/-- The octets of two segments. -/
def bigEndian (high low : UInt16) : List UInt8 :=
  [(high >>> 8).toUInt8, high.toUInt8, (low >>> 8).toUInt8, low.toUInt8]

def canonicalIp : IpAddr → IpAddr
  | .v4 octets => .v4 octets
  | .v6 segments =>
    if segments.val.take 5 = List.replicate 5 0 ∧ segments.val.get ⟨5, by grind⟩ = 0xFFFF then
      .v4 ⟨bigEndian (segments.val.get ⟨6, by grind⟩) (segments.val.get ⟨7, by grind⟩), rfl⟩
    else
      .v6 segments

/-- A canonical address is its own canonical form. -/
theorem canonicalIp_idem (ip : IpAddr) : canonicalIp (canonicalIp ip) = canonicalIp ip := by
  cases ip with
  | v4 octets => rfl
  | v6 segments =>
    by_cases hmapped : segments.val.take 5 = List.replicate 5 0 ∧
        segments.val.get ⟨5, by grind⟩ = 0xFFFF
    · rw [canonicalIp, if_pos hmapped, canonicalIp]
    · rw [canonicalIp, if_neg hmapped, canonicalIp, if_neg hmapped]

end Leone.Transport
