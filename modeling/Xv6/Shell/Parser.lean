import Xv6.Machine.Bytes
import Xv6.Machine.Hoare

/-!
# The parser of the shell

The recursive descent of `sh.c`, from `gettoken` to `parsecmd`. A pointer into the command line is
given by the bytes from it on, up to the NUL at the end; the cursor `*ps` is the state of the parser,
and `panic` ends it. A command tree points into the line, and `nulterminate` cuts the line into
strings at the end. Memory for the tree is taken to be there.
-/

namespace Xv6.Shell

open Machine

def MAXARGS : Nat := 10

def O_RDONLY : Nat := 0x000
def O_WRONLY : Nat := 0x001
def O_CREATE : Nat := 0x200

/-! ### The line -/

/-- A pointer into the command line. -/
abbrev Ptr := List Byte

/-- `*s`. -/
def deref (s : Ptr) : Byte := s.headD 0

/-- `strchr(t, c)` is not null. -/
def strchr (t : List Char) (c : Byte) : Bool := t.any fun x => chr x = c

def whitespace : List Char := [' ', '\t', '\r', '\n', '\x0b']

def symbols : List Char := ['<', '|', '>', '&', ';', '(', ')']

/-- A byte that goes on with a word. -/
def isWord (c : Byte) : Bool := !strchr whitespace c && !strchr symbols c

/-- The loops over white space. -/
def skip (s : Ptr) : Ptr := s.dropWhile (strchr whitespace)

/-! ### Commands -/

inductive Cmd
  /-- `argv[i]` and `eargv[i]` -/
  | exec (argv : List (Ptr × Ptr))
  | redir (cmd : Cmd) (file efile : Ptr) (mode fd : Nat)
  | pipe (left right : Cmd)
  | list (left right : Cmd)
  | back (cmd : Cmd)
  deriving DecidableEq

/-- `argv[argc] = q; eargv[argc] = eq` in the command that the redirections of `ret` are around. -/
def Cmd.addArg (q eq : Ptr) : Cmd → Cmd
  | .exec argv => .exec (argv ++ [(q, eq)])
  | .redir cmd file efile mode fd => .redir (cmd.addArg q eq) file efile mode fd
  | cmd => cmd

/-! ### The parser -/

inductive Panic
  /-- `syntax`, for a token that is not a word -/
  | badToken
  /-- `syntax`, after `leftovers` -/
  | leftovers
  /-- `missing file for redirection` -/
  | missingFile
  | parseblock
  /-- `syntax - missing )` -/
  | missingParen
  /-- `too many args` -/
  | tooManyArgs
  deriving DecidableEq

inductive Fail
  | panic (p : Panic)
  /-- the bound on the number of calls is reached -/
  | timeout
  deriving DecidableEq

abbrev Parse := StateT Ptr (Except Fail)

/-- What `gettoken` returns, and where the token starts and ends. -/
structure Got where
  ret : Byte
  q : Ptr
  eq : Ptr

/-- The `switch` of `gettoken`: what it returns and the end of the token. -/
def scan (s : Ptr) : Byte × Ptr :=
  let c := deref s
  if c = 0 then (c, s)
  else if strchr ['|', '(', ')', ';', '&', '<'] c then (c, s.tail)
  else if c = chr '>' then
    if deref s.tail = chr '>' then (chr '+', s.tail.tail) else (c, s.tail)
  else (chr 'a', s.dropWhile isWord)

/-- The token at a pointer, and the pointer to what follows. -/
def nextToken (ps : Ptr) : Got × Ptr :=
  let s := skip ps
  let x := scan s
  (⟨x.1, s, x.2⟩, skip x.2)

def gettoken : Parse Got := modifyGet nextToken

def peek (toks : List Char) : Parse Bool :=
  modifyGet fun ps =>
    let s := skip ps
    (deref s ≠ 0 && strchr toks (deref s), s)

/-- The `switch` of `parseredirs`. -/
def redirect (tok : Byte) (cmd : Cmd) (q eq : Ptr) : Cmd :=
  if tok = chr '<' then .redir cmd q eq O_RDONLY 0
  else if tok = chr '>' then .redir cmd q eq (O_WRONLY ||| O_CREATE) 1
  else if tok = chr '+' then .redir cmd q eq (O_WRONLY ||| O_CREATE) 1
  else cmd

def parseredirs : Nat → Cmd → Parse Cmd
  | 0, _ => throw .timeout
  | n + 1, cmd => do
    if ← peek ['<', '>'] then
      let tok ← gettoken
      let file ← gettoken
      if file.ret ≠ chr 'a' then throw (.panic .missingFile)
      else parseredirs n (redirect tok.ret cmd file.q file.eq)
    else return cmd

/-- The loop of `parseexec`. -/
def execLoop : Nat → Nat → Cmd → Parse Cmd
  | 0, _, _ => throw .timeout
  | n + 1, argc, ret => do
    if ← peek ['|', ')', '&', ';'] then return ret
    else
      let tok ← gettoken
      if tok.ret = 0 then return ret
      else if tok.ret ≠ chr 'a' then throw (.panic .badToken)
      else if argc + 1 ≥ MAXARGS then throw (.panic .tooManyArgs)
      else
        let ret ← parseredirs n (ret.addArg tok.q tok.eq)
        execLoop n (argc + 1) ret

/-- The loop of `parseline`. -/
def backLoop : Nat → Cmd → Parse Cmd
  | 0, _ => throw .timeout
  | n + 1, cmd => do
    if ← peek ['&'] then
      let _ ← gettoken
      backLoop n (.back cmd)
    else return cmd

mutual

def parseline : Nat → Parse Cmd
  | 0 => throw .timeout
  | n + 1 => do
    let cmd ← parsepipe n
    let cmd ← backLoop n cmd
    if ← peek [';'] then
      let _ ← gettoken
      let right ← parseline n
      return .list cmd right
    else return cmd

def parsepipe : Nat → Parse Cmd
  | 0 => throw .timeout
  | n + 1 => do
    let cmd ← parseexec n
    if ← peek ['|'] then
      let _ ← gettoken
      let right ← parsepipe n
      return .pipe cmd right
    else return cmd

def parseblock : Nat → Parse Cmd
  | 0 => throw .timeout
  | n + 1 => do
    if ← peek ['('] then
      let _ ← gettoken
      let cmd ← parseline n
      if ← peek [')'] then
        let _ ← gettoken
        parseredirs n cmd
      else throw (.panic .missingParen)
    else throw (.panic .parseblock)

def parseexec : Nat → Parse Cmd
  | 0 => throw .timeout
  | n + 1 => do
    if ← peek ['('] then parseblock n
    else
      let ret ← parseredirs n (.exec [])
      execLoop n 0 ret

end

/-! ### Strings -/

/-- The memory that the line is in. -/
abbrev Mem := Nat → Byte

def load (line : List Byte) : Mem := fun i => line.getD i 0

/-- The address of a pointer into the line. -/
def addr (line : List Byte) (p : Ptr) : Nat := line.length - p.length

/-- `*p = 0`. -/
def cut (line : List Byte) (m : Mem) (p : Ptr) : Mem := Function.update m (addr line p) 0

def nulterminate (line : List Byte) : Cmd → Mem → Mem
  | .exec argv, m => argv.foldl (fun m a => cut line m a.2) m
  | .redir cmd _ efile _ _, m => cut line (nulterminate line cmd m) efile
  | .pipe left right, m => nulterminate line right (nulterminate line left m)
  | .list left right, m => nulterminate line right (nulterminate line left m)
  | .back cmd, m => nulterminate line cmd m

/-- `parsecmd` up to `nulterminate`. -/
def parseall (n : Nat) : Parse Cmd := do
  let cmd ← parseline n
  let _ ← peek []
  if (← get) = [] then return cmd else throw (.panic .leftovers)

def parsecmd (line : List Byte) : Except Fail (Cmd × Mem) := do
  let x ← (parseall (4 * line.length + 4)).run line
  return (x.1, nulterminate line x.1 (load line))

end Xv6.Shell
