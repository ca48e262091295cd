import LinuxServer.Lib.Fault
import LinuxServer.Lib.Inet

/-!
# `CppServer/InetAddress.lean` — addresses, and the text they are made from

An `InetAddress` is made from a text and a port, and gives both back. An `Acceptor` that is given an `InetAddress`
relies on that: it takes the text and the port out of it and makes an address of its own from them.
-/

set_option autoImplicit false

namespace LinuxServer

def afInet : Nat := 2

/-- `InetAddress`, the bytes that pad `addr` left out: no function reads them. -/
structure InetAddress where
  sinFamily : Nat
  sinPort : UInt16
  sinAddr : InAddr
  deriving DecidableEq, Repr

namespace InetAddress

/-- `addr_len`, which every constructor sets to `sizeof(addr)` and no function assigns. -/
def addrLen : Nat := 16

/-- `InetAddress(ip, port)`. `ip.data()` is read up to the zero behind it. -/
def make (ip : List Byte) (port : UInt16) : Except String InetAddress :=
  match inetPton (ip.takeWhile (· ≠ 0)) with
  | none => .error "Invalid IP address"
  | some sinAddr => .ok { sinFamily := afInet, sinPort := htons port, sinAddr }

def getPort (t : InetAddress) : UInt16 := ntohs t.sinPort

/-- `getIp()`. `inet_ntop` writes nothing where the size it is given is too small, and the text would be what `new`
    left there. -/
def getIp (t : InetAddress) : Except Fault (List Byte) :=
  let ip := inetNtop t.sinAddr
  if ip.length < addrLen then .ok ip else .error .indeterminate

/-- The address an `Acceptor(t_loop, t_addr, t_socket)` binds. -/
def rebuilt (t_addr : InetAddress) : Except Fault (Except String InetAddress) := do
  let ip ← t_addr.getIp
  return make ip t_addr.getPort

theorem getIp_eq (t : InetAddress) : t.getIp = .ok (inetNtop t.sinAddr) :=
  if_pos (Nat.lt_succ_of_le (length_inetNtop t.sinAddr))

theorem getPort_eq {t : InetAddress} {port : UInt16} : t.getPort = port ↔ t.sinPort = htons port := by
  unfold getPort ntohs
  constructor
  · rintro rfl
    exact (htons_htons _).symm
  · intro h
    rw [h, htons_htons]

theorem make_inetNtop (addr : InAddr) (port : UInt16) :
    make (inetNtop addr) port = .ok ⟨afInet, htons port, addr⟩ := by
  have hcut : (inetNtop addr).takeWhile (· ≠ 0) = inetNtop addr :=
    List.takeWhile_eq_self_iff.mpr fun b hb => decide_eq_true fun hzero => zero_notMem_inetNtop addr (hzero ▸ hb)
  unfold make
  rw [hcut, inetPton_inetNtop]

/-- An address is made from a text and a port if and only if it gives them back. -/
theorem make_eq_ok {ip : List Byte} {port : UInt16} {t : InetAddress} :
    make ip port = .ok t ↔
      t.sinFamily = afInet ∧ t.getIp = .ok (ip.takeWhile (· ≠ 0)) ∧ t.getPort = port := by
  rw [getIp_eq, getPort_eq]
  unfold make
  constructor
  · intro h
    split at h
    · cases h
    · rename_i sinAddr hread
      cases h
      exact ⟨rfl, congrArg _ (inetPton_eq_some.mp hread).symm, rfl⟩
  · rintro ⟨hfamily, hip, hport⟩
    have hread : inetPton (ip.takeWhile (· ≠ 0)) = some t.sinAddr := inetPton_eq_some.mpr (Except.ok.inj hip).symm
    rw [hread]
    simp only
    rw [← hfamily, ← hport]

theorem rebuilt_eq (t : InetAddress) : t.rebuilt = .ok (.ok { t with sinFamily := afInet }) := by
  unfold rebuilt
  rw [getIp_eq]
  change Except.ok (make (inetNtop t.sinAddr) t.getPort) = _
  rw [make_inetNtop, ← getPort_eq.mp rfl]

/-- **Addresses and their texts**: the texts that make an address are those that some address gives back, each that
    of one address only; and what an `Acceptor` rebuilds from an address it is given is that address. -/
theorem reads_back :
    (∀ ip port t, make ip port = .ok t ↔
      t.sinFamily = afInet ∧ t.getIp = .ok (ip.takeWhile (· ≠ 0)) ∧ t.getPort = port) ∧
    ∀ t : InetAddress, t.rebuilt = .ok (.ok { t with sinFamily := afInet }) :=
  ⟨fun _ _ _ => make_eq_ok, rebuilt_eq⟩

end InetAddress

end LinuxServer
