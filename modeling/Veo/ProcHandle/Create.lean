-- SUMMARY: Creating a VE process: which node veo_proc_create_static selects, and the paths that it makes of its number.
import Veo.CallArgs.Basic
import Veo.Lib.Text

/-!
# The node of a VE process

`veo_proc_create_static` translates the number that it is given through the environment variables
`_VENODELIST` and `VE_NODE_NUMBER`, and prints the number of the node into the path of the device
and the path of the VEOS socket. The constructor of `ProcHandle` reads the number back from the
first one, and `get_ve_node_num` from the base name of the second one.
-/

namespace Veo

open Text

/-! ## Numbers in the environment -/

/-- The exceptions of `std::stoi`. -/
inductive StdException where
  | invalidArgument | outOfRange
deriving DecidableEq, Repr

/-- `std::stoi`. -/
def stoi (s : List Char) : Except StdException Int :=
  match readInt s with
  | some i => if -2 ^ 31 ≤ i ∧ i < 2 ^ 31 then .ok i else .error .outOfRange
  | none => .error .invalidArgument

/-- What the translation of the node number comes to: a node, the return of NULL, or a loop that
    does not end. -/
inductive Selection where
  | node (venode : Int)
  | null
  | diverges
deriving DecidableEq, Repr

/-- The loop over the tokens. -/
def findNode (venode : Int) : List (List Char) → Except StdException Bool
  | [] => .ok false
  | s :: v => do
    let i ← stoi s
    if i = venode then .ok true else findNode venode v

/-- The search for the value of `VE_NODE_NUMBER`. The index of the loop is an `unsigned int`: it
    comes back to the first token if there are 2 ^ 32 of them. -/
def searchNode (venode : Int) (v : List (List Char)) : Except StdException Selection := do
  let found ← findNode venode (v.take (2 ^ 32))
  if found then .ok (.node venode)
  else if v.length < 2 ^ 32 then .ok .null
  else .ok .diverges

/-- The translation of `venode` in `veo_proc_create_static`, with the values of `_VENODELIST` and
    `VE_NODE_NUMBER`. The size of the vector is compared as an `int`, so the element that is
    selected exists. -/
def selectNode (venode : Int) (venodelist venodenum : Option (List Char)) :
    Except StdException Selection :=
  match venodelist with
  | some str =>
    let v := getlines ' ' [] str
    if venode = -1 then
      match venodenum with
      | some num => do searchNode (← stoi num) v
      | none =>
        match v with
        | s :: _ => do return .node (← stoi s)
        | [] => .ok .null
    else if toInt32 v.length ≤ venode then .ok .null
    else do return .node (← stoi (v.getD venode.toNat []))
  | none =>
    if venode = -1 then
      match venodenum with
      | some num => do return .node (← stoi num)
      | none => .ok (.node 0)
    else .ok (.node venode)

/-! ## The paths -/

/-- `snprintf` into a buffer of `size` bytes. -/
def snprintf (size : Nat) (text : List Char) : List Char := text.take (size - 1)

/-- The text of `VE_DEV` before the number. -/
def veDev : List Char := ['/', 'd', 'e', 'v', '/', 'v', 'e', 's', 'l', 'o', 't']

/-- The texts of `VEOS_SOCKET` between the directory and the number, and after the number. -/
def veosSock : List Char := ['/', 'v', 'e', 'o', 's']
def sockSuffix : List Char := ['.', 's', 'o', 'c', 'k']

/-- `vedev`, which has 16 bytes. -/
def vedevPath (venode : Int) : List Char := snprintf 16 (veDev ++ ofInt venode)

/-- `ossock`, which has 16 bytes more than the format with its `%d` and the zero at its end. -/
def ossockPath (dir : List Char) (venode : Int) : List Char :=
  snprintf ((dir ++ veosSock ++ ['%', 'd'] ++ sockSuffix).length + 1 + 16)
    (dir ++ veosSock ++ ofInt venode ++ sockSuffix)

/-! ## Creating the process -/

/-- What `veo_proc_create_static` comes to: NULL, a call of `veo_proc__create` for a node, an
    exception that is not caught, or a loop that does not end. -/
inductive Created where
  | null
  | create (venode : Int) (ossock vedev : List Char)
  | thrown (e : StdException)
  | diverges
deriving DecidableEq, Repr

/-- The exceptions that `veo_proc_create_static` catches. -/
def StdException.caught : StdException → Bool
  | .invalidArgument | .outOfRange => true

/-- `veo_proc__create` is called for the node. -/
def Created.of (dir : List Char) (venode : Int) : Created :=
  .create venode (ossockPath dir venode) (vedevPath venode)

/-- `veo_proc_create_static`. The sockets of the VEOS are in the directory `dir`. -/
def veoProcCreateStatic (dir : List Char) (venode : Int)
    (venodelist venodenum : Option (List Char)) : Created :=
  if venode < -1 then .null
  else
    match selectNode venode venodelist venodenum with
    | .ok (.node venode) => .of dir venode
    | .ok .null => .null
    | .ok .diverges => .diverges
    | .error e => if e.caught then .null else .thrown e

/-! ## Reading the number back -/

/-- The number of the VE in the constructor of `ProcHandle`: `sscanf` with the format
    `/dev/veslot%d`, or -1 if it does not match. -/
def veNumber (vedev : List Char) : Int :=
  if veDev.isPrefixOf vedev then (readInt (vedev.drop veDev.length)).getD (-1) else -1

/-- The loop of `get_ve_node_num`, which computes in `int`. -/
def getVeNodeNum (n : Int) : List Char → Except Fault Int
  | [] => .ok n
  | c :: s =>
    if c.isDigit then do
      let n ← checkInt (10 * n + (c.toNat - 48))
      getVeNodeNum n s
    else if c = '.' then .ok n
    else getVeNodeNum n s

/-- `basename` of a path that does not end in a slash. -/
def baseName (path : List Char) : List Char := (path.reverse.takeWhile (· ≠ '/')).reverse

end Veo
