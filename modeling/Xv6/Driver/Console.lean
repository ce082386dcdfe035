import Xv6.Machine.Bytes
import Xv6.Machine.Ring
import Xv6.Machine.Run

/-!
# Console input

`consoleintr` and `consoleread` on the buffer `input`, called by the keyboard and serial interrupts
and by any number of processes. A step is a critical section under `cons.lock`: a whole call of
`consoleintr`, or of `consoleread` from `acquire`, or the return from `sleep`, to the next `sleep` or
`release`. A process that sleeps goes on after `wakeup(&input.r)`; as `killed` can be set at any time
here, a killed process goes on too. What is echoed to the screen is left out.
-/

namespace Xv6.Console

open Machine

def INPUT_BUF : Nat := 128

instance : NeZero INPUT_BUF := ⟨by decide⟩

/-- Control-x. -/
def C (x : Char) : Byte := chr x - chr '@'

structure Input where
  buf : Fin INPUT_BUF → Byte
  /-- read index -/
  r : Word
  /-- write index -/
  w : Word
  /-- edit index -/
  e : Word

/-- `input.buf[input.e++ % INPUT_BUF] = c`. -/
def Input.put (i : Input) (c : Byte) : Input :=
  { i with buf := Function.update i.buf (Ring.index INPUT_BUF i.e) c, e := i.e + 1 }

/-- `input.buf[input.r++ % INPUT_BUF]`. -/
def Input.get (i : Input) : Byte × Input :=
  (i.buf (Ring.index INPUT_BUF i.r), { i with r := i.r + 1 })

/-! ### `consoleintr` -/

/-- The loop of the kill-line key. It ends at `input.w`, so that `input.e - input.w` rounds do. -/
def killLoop : Nat → Input → Input
  | 0, i => i
  | k + 1, i =>
    if i.e ≠ i.w ∧ i.buf (Ring.index INPUT_BUF (i.e - 1)) ≠ chr '\n' then
      killLoop k { i with e := i.e - 1 }
    else i

def backspace (i : Input) : Input := if i.e ≠ i.w then { i with e := i.e - 1 } else i

/-- `c == '\n' || c == C('D') || input.e == input.r+INPUT_BUF`. -/
def commits (i : Input) (c : Byte) : Bool :=
  c = chr '\n' || c = C 'D' || i.e = i.r + BitVec.ofNat 32 INPUT_BUF

/-- `c = (c == '\r') ? '\n' : c`. -/
def translate (c : Byte) : Byte := if c = chr '\r' then chr '\n' else c

/-- A key is stored, and the line is given to the readers at its end. -/
def accept (i : Input) (c : Byte) : Input × Bool :=
  let i := i.put (translate c)
  if commits i (translate c) then ({ i with w := i.e }, true) else (i, false)

/-- One round of `consoleintr`, and whether it calls `wakeup(&input.r)`. -/
def key (i : Input) (c : Byte) : Input × Bool :=
  if c = C 'P' then (i, false)
  else if c = C 'U' then (killLoop (i.e - i.w).toNat i, false)
  else if c = C 'H' ∨ c = chr '\x7f' then (backspace i, false)
  else if c ≠ 0 ∧ i.e - i.r < BitVec.ofNat 32 INPUT_BUF then accept i c
  else (i, false)

/-- The loop of `consoleintr` over what `getc` returns. -/
def keyLoop : Input → List Byte → Input × Bool
  | i, [] => (i, false)
  | i, c :: cs =>
    let x := key i c
    let y := keyLoop x.1 cs
    (y.1, x.2 || y.2)

/-! ### `consoleread` -/

/-- How a critical section of `consoleread` ends. -/
inductive ReadEnd
  | done
  | killed
  | sleep

/-- What a critical section of `consoleread` has stored so far, how much is left and how it ends. -/
structure ReadOut where
  dst : List Byte
  n : Nat
  input : Input
  fin : ReadEnd

/-- The loop of `consoleread`. -/
def readLoop (killed : Bool) (target : Nat) : (n : Nat) → List Byte → Input → ReadOut
  | 0, dst, i => ⟨dst, 0, i, .done⟩
  | n + 1, dst, i =>
    if i.r = i.w then ⟨dst, n + 1, i, if killed then .killed else .sleep⟩
    else
      let (c, j) := i.get
      if c = C 'D' then
        -- saved for the next call, so that its result is 0 bytes
        ⟨dst, n + 1, if n + 1 < target then { j with r := j.r - 1 } else j, .done⟩
      else if c = chr '\n' then ⟨dst ++ [c], n, j, .done⟩
      else readLoop killed target n (dst ++ [c]) j

/-! ### Processes -/

abbrev ProcId := Nat

/-- A process: outside `consoleread`, with what the last call returned and stored, or before the next
    critical section of a call. -/
inductive Pc
  | user (ret : Int) (dst : List Byte)
  | read (dst : List Byte) (n target : Nat) (asleep : Bool)

structure State where
  input : Input
  pc : ProcId → Pc
  killed : ProcId → Bool

def Pc.wakeup : Pc → Pc
  | .read dst n target _ => .read dst n target false
  | pc => pc

/-- `wakeup(&input.r)`. -/
def wakeup (s : State) : State := { s with pc := fun q => (s.pc q).wakeup }

def setPc (s : State) (q : ProcId) (x : Pc) : State := { s with pc := Function.update s.pc q x }

def consoleintr (s : State) (cs : List Byte) : State :=
  let x := keyLoop s.input cs
  let s := { s with input := x.1 }
  if x.2 then wakeup s else s

/-- Where a call of `consoleread` is after a critical section. -/
def ReadOut.pc (target : Nat) (o : ReadOut) : Pc :=
  match o.fin with
  | .done => .user (target - o.n) o.dst
  | .killed => .user (-1) o.dst
  | .sleep => .read o.dst o.n target true

/-- A critical section of `consoleread`. -/
def consoleread (s : State) (q : ProcId) (dst : List Byte) (n target : Nat) : State :=
  let o := readLoop (s.killed q) target n dst s.input
  setPc { s with input := o.input } q (o.pc target)

inductive Label
  /-- `consoleintr`, with the keys that `getc` returns -/
  | intr (cs : List Byte)
  /-- a process calls `consoleread` -/
  | consoleread (q : ProcId) (n : Int)
  /-- the next critical section of a process -/
  | run (q : ProcId)
  | kill (q : ProcId)

def step (s : State) : Label → Option State
  | .intr cs => some (consoleintr s cs)
  | .consoleread q n =>
    match s.pc q with
    -- a call with `n <= 0` does not enter the loop, and `target - n` is 0
    | .user .. => some (setPc s q (.read [] n.toNat n.toNat false))
    | _ => none
  | .run q =>
    match s.pc q with
    | .read dst n target false => some (consoleread s q dst n target)
    | _ => none
  | .kill q =>
    some { s with
      killed := Function.update s.killed q true,
      pc := Function.update s.pc q (s.pc q).wakeup }

def boot : State where
  input := ⟨fun _ => 0, 0, 0, 0⟩
  pc := fun _ => .user 0 []
  killed := fun _ => false

end Xv6.Console
