import Mathlib.Data.List.Basic
import Svr4.Kernel.Errno

/-! Protocol control blocks of the internet protocols: names, look-up and connections.

Ports and addresses are in host order. A call that never returns gives no result.
-/

namespace Svr4.Inpcb

abbrev Addr := BitVec 32

/-- `INADDR_ANY`. -/
def inaddrAny : Addr := 0

def inaddrBroadcast : Addr := 0xffffffff

/-- `IPPORT_RESERVED`. -/
def ipportReserved : Nat := 1024

/-- `IPPORT_USERRESERVED`. -/
def ipportUserreserved : Nat := 5000

/-- `struct inpcb`; the options and flags are those that the functions here test. -/
structure Pcb where
  id : Nat
  laddr : Addr
  lport : Nat
  faddr : Addr
  fport : Nat
  /-- `SO_REUSEADDR`, `SO_ACCEPTCONN`, `SO_IMASOCKET`: `inp_protoopt`. -/
  reuseaddr : Bool
  acceptconn : Bool
  imasocket : Bool
  /-- `PR_CONNREQUIRED`: `inp_protodef`. -/
  connrequired : Bool
  /-- `SS_PRIV`, `SS_NOFDREF`: `inp_state`. -/
  priv : Bool
  nofdref : Bool
  deriving DecidableEq, Repr

/-- A list of control blocks, and the port in its head. -/
structure Head where
  lport : Nat
  pcbs : List Pcb
  nextId : Nat
  deriving DecidableEq, Repr

/-- `struct ip_provider`, with `up` for one that is open and up. -/
structure Provider where
  up : Bool
  loopback : Bool
  pointopoint : Bool
  broadcast : Bool
  addr : Addr
  broadaddr : Addr
  deriving DecidableEq, Repr

/-- The interfaces and routes: the address a route to a destination gives, if there is one that is not the loopback. -/
structure Net where
  provider : List Provider
  routed : Addr → Option Addr

section
variable (net : Net) (head : Head)

/-- `prov_withaddr`. -/
def Net.provWithaddr (addr : Addr) : Bool :=
  net.provider.any fun prov => prov.up ∧ (prov.addr = addr ∨ prov.broadcast ∧ prov.broadaddr = addr)

def Head.find (id : Nat) : Option Pcb := head.pcbs.find? fun inp => inp.id = id

def Head.set (id : Nat) (change : Pcb → Pcb) : Head :=
  { head with pcbs := head.pcbs.map fun inp => if inp.id = id then change inp else inp }

/-! ## `in_pcblookup` -/

/-- The number of wildcards a control block needs; nothing if it does not match. -/
def wildcard (faddr : Addr) (fport : Nat) (laddr : Addr) (lport : Nat) (inp : Pcb) : Option Nat :=
  if inp.lport ≠ lport then none
  else
    let local' := if inp.laddr ≠ inaddrAny then (if laddr = inaddrAny then some 1 else if inp.laddr ≠ laddr then none else some 0)
      else if laddr ≠ inaddrAny then some 1 else some 0
    let foreign := if inp.faddr ≠ inaddrAny then
        (if faddr = inaddrAny then some 1 else if inp.faddr ≠ faddr ∨ inp.fport ≠ fport then none else some 0)
      else if faddr ≠ inaddrAny then some 1 else some 0
    local'.bind fun m => foreign.map fun n => m + n

/-- What counts as a match of a look-up, with its wildcards. -/
def matches' (faddr : Addr) (fport : Nat) (laddr : Addr) (lport : Nat) (wild : Bool) (inp : Pcb) : Option Nat :=
  (wildcard faddr fport laddr lport inp).filter fun count => count = 0 ∨ wild

/-- The loop of `in_pcblookup`, with the best match so far. -/
def lookupFrom (count : Pcb → Option Nat) : Option Pcb → Nat → List Pcb → Option Pcb
  | found, _, [] => found
  | found, matchwild, inp :: rest =>
    match count inp with
    | none => lookupFrom count found matchwild rest
    | some wildcard =>
      if wildcard < matchwild then
        (if wildcard = 0 then some inp else lookupFrom count (some inp) wildcard rest)
      else lookupFrom count found matchwild rest

def inPcblookup (faddr : Addr) (fport : Nat) (laddr : Addr) (lport : Nat) (wild : Bool) : Option Pcb :=
  lookupFrom (matches' faddr fport laddr lport wild) none 3 head.pcbs

/-! ## `in_pcballoc` and `in_pcbdetach` -/

/-- `in_pcballoc`; the options are those the protocol sets. -/
def inPcballoc (options : Pcb) : Head :=
  { head with
    pcbs := { options with id := head.nextId, laddr := inaddrAny, lport := 0, faddr := inaddrAny, fport := 0 } :: head.pcbs
    nextId := head.nextId + 1 }

def inPcbdetach (id : Nat) : Head := { head with pcbs := head.pcbs.filter fun inp => inp.id ≠ id }

def inPcbdisconnect (inp : Pcb) : Head :=
  let head := head.set inp.id fun inp => { inp with faddr := inaddrAny, fport := 0 }
  if inp.nofdref then inPcbdetach head inp.id else head

/-! ## `in_pcbbind` -/

/-- The port after the last one that was given out. -/
def nextPort (lport : Nat) : Nat :=
  if lport < ipportReserved ∨ ipportUserreserved < (lport + 1) % 65536 then ipportReserved else (lport + 1) % 65536

/-- A port with which no control block is in the way. -/
def freePort (laddr : Addr) (lport : Nat) : Bool := (inPcblookup head inaddrAny 0 laddr lport true).isNone

/-- The loop of `in_pcbbind` that looks for a port, turn by turn. -/
def searchPort (laddr : Addr) : Nat → Nat → Option Nat
  | 0, _ => none
  | fuel + 1, lport =>
    if freePort head laddr (nextPort lport) then some (nextPort lport) else searchPort laddr fuel (nextPort lport)

/-- The turns after which all ports have come up. -/
def turns : Nat := ipportUserreserved - ipportReserved + 1

/-- From `noname` on, when no port is given. -/
def bindAny (id : Nat) (laddr : Addr) : Option (Option Errno × Head) :=
  let head := head.set id fun inp => { inp with laddr := laddr }
  (searchPort head laddr turns head.lport).map fun lport =>
    (none, { head.set id (fun inp => { inp with lport := lport }) with lport := lport })

/-- The name that `in_pcbbind` is given: none, one that is too short, or an address and a port. -/
inductive Name where
  | null
  | short
  | sin (addr : Addr) (port : Nat)
  deriving DecidableEq, Repr

def inPcbbind (inp : Pcb) (nam : Name) : Option (Option Errno × Head) :=
  if inp.lport ≠ 0 ∨ inp.laddr ≠ inaddrAny then some (some .einval, head)
  else
    match nam with
    | .null => bindAny head inp.id inp.laddr
    | .short => some (some .einval, head)
    | .sin addr port =>
      if addr ≠ inaddrAny ∧ ¬ net.provWithaddr addr ∧ inp.imasocket then some (some .eaddrnotavail, head)
      else
        let addr := if addr ≠ inaddrAny ∧ ¬ net.provWithaddr addr then inaddrAny else addr
        if port = 0 then bindAny head inp.id addr
        else if port < ipportReserved ∧ ¬ inp.priv then some (some .eacces, head)
        else
          let wild : Bool := ¬ inp.reuseaddr ∧ (¬ inp.connrequired ∨ ¬ inp.acceptconn)
          if (inPcblookup head inaddrAny 0 addr port wild).isSome then
            if inp.imasocket then some (some .eaddrinuse, head) else bindAny head inp.id addr
          else some (none, head.set inp.id fun inp => { inp with laddr := addr, lport := port })

/-! ## `in_pcbconnect` -/

/-- The destination: its length and family are right, an address and a port. -/
structure Dest where
  sized : Bool
  inet : Bool
  addr : Addr
  port : Nat
  deriving DecidableEq, Repr

/-- `first_prov`. -/
def firstProv (addr : Addr) : Option Provider :=
  (if addr = inaddrAny then net.provider.find? fun prov => prov.up ∧ prov.loopback else none).or
    ((net.provider.find? fun prov => prov.up ∧ ¬ (prov.loopback ∨ prov.pointopoint)).or
      (net.provider.find? fun prov => prov.up ∧ ¬ prov.loopback))

/-- The destination, when it stands for this host or for the first network. -/
def destAddr (addr : Addr) : Addr :=
  match firstProv net addr with
  | none => addr
  | some prov =>
    if addr = inaddrAny then prov.addr
    else if addr = inaddrBroadcast ∧ prov.broadcast then prov.broadaddr
    else addr

/-- The address of the interface to the destination. -/
def provAddr (addr : Addr) : Option Addr := (net.routed (destAddr net addr)).or ((firstProv net addr).map Provider.addr)

/-- The end of `in_pcbconnect`. -/
def connectTo (id : Nat) (addr : Addr) (port : Nat) : Head := head.set id fun inp => { inp with faddr := addr, fport := port }

/-- `in_pcbconnect`; `given` is the answer to its allocation. -/
def inPcbconnect (given : Bool) (inp : Pcb) (nam : Dest) : Option (Option Errno × Head) :=
  if ¬ nam.sized then some (some .einval, head)
  else if ¬ nam.inet then some (some .eafnosupport, head)
  else if nam.port = 0 then some (some .eaddrnotavail, head)
  else
    let dest := destAddr net nam.addr
    if inp.laddr ≠ inaddrAny then
      if (inPcblookup head dest nam.port inp.laddr inp.lport false).isSome then some (some .eaddrinuse, head)
      else some (none, connectTo head inp.id dest nam.port)
    else
      match provAddr net nam.addr with
      | none => some (some .eaddrnotavail, head)
      | some addr =>
        if (inPcblookup head dest nam.port addr inp.lport false).isSome then some (some .eaddrinuse, head)
        else
          let bound := head.set inp.id fun inp => { inp with laddr := addr }
          if inp.lport ≠ 0 ∧ addr ≠ inaddrAny then some (none, connectTo bound inp.id dest nam.port)
          else if ¬ given then some (some .enosr, head)
          else
            let unnamed := head.set inp.id fun inp => { inp with lport := 0 }
            (inPcbbind net unnamed { inp with lport := 0 } (.sin addr inp.lport)).map fun result =>
              match result.1 with
              | some error => (some error, result.2)
              | none => (none, connectTo result.2 inp.id dest nam.port)

/-! ## Passive opens -/

/-- A segment for a listening control block: a new one is made, named and connected; it goes again when that fails. -/
def passiveOpen (given : Bool) (options : Pcb) (laddr : Addr) (lport : Nat) (src : Addr) (sport : Nat) :
    Option (Option Errno × Head) :=
  let id := head.nextId
  let named := (inPcballoc head options).set id fun inp => { inp with laddr := laddr, lport := lport }
  let inp := { options with id := id, laddr := laddr, lport := lport, faddr := inaddrAny, fport := 0 }
  (inPcbconnect net named given inp ⟨true, true, src, sport⟩).map fun result =>
    match result.1 with
    | some error => (some error, inPcbdetach result.2 id)
    | none => result

end

/-! ## Runs -/

inductive Event where
  | alloc (options : Pcb)
  | bind (net : Net) (id : Nat) (nam : Name)
  | connect (net : Net) (given : Bool) (id : Nat) (nam : Dest)
  | disconnect (id : Nat)
  | detach (id : Nat)
  | passive (net : Net) (given : Bool) (options : Pcb) (laddr : Addr) (lport : Nat) (src : Addr) (sport : Nat)

def run (head : Head) : Event → Option (Option Errno × Head)
  | .alloc options => some (none, inPcballoc head options)
  | .bind net id nam => (head.find id).bind fun inp => inPcbbind net head inp nam
  | .connect net given id nam => (head.find id).bind fun inp => inPcbconnect net head given inp nam
  | .disconnect id => (head.find id).map fun inp => (none, inPcbdisconnect head inp)
  | .detach id => (head.find id).map fun _ => (none, inPcbdetach head id)
  | .passive net given options laddr lport src sport => passiveOpen net head given options laddr lport src sport

end Svr4.Inpcb
