/-
  TlsMigration.Lib.GoPath
  ───────────────────────
  **GO'S `path/filepath` ON UNIX: `Clean` AND `Join`.**

  `Clean` works on the elements between the slashes, with a stack.  The last
  element of a joined path stays as it is when it is an ordinary one, and
  the part before it comes from the directory alone:

    • `Join_eq`        — `Join dir name = dirPart dir ++ name`;
    • `Join_injective` — so two names never give one path.
-/
import TlsMigration.Lib.Bytes
import Mathlib.Data.List.Basic

namespace TlsMigration.GoPath

/-! ## §1. The functions. -/

def dot : Bytes := [46]

def dotdot : Bytes := [46, 46]

/-- One element of a path; the stack has its top first. -/
def cleanStep (rooted : Bool) (stack : List Bytes) (e : Bytes) : List Bytes :=
  if e = [] ∨ e = dot then stack
  else if e = dotdot then
    match stack with
    | top :: rest => if top = dotdot then dotdot :: stack else rest
    | [] => if rooted then [] else [dotdot]
  else e :: stack

/-- The elements that are left of a path, the last one first. -/
def cleanElements (path : Bytes) : List Bytes :=
  (path.splitOn Ch.slash).foldl (cleanStep (path.head? = some Ch.slash)) []

/-- `strings.Join(elements, "/")`, the last element first. -/
def joinElements : List Bytes → Bytes
  | [] => []
  | [e] => e
  | e :: es => joinElements es ++ Ch.slash :: e

/-- `filepath.Clean`. -/
def Clean (path : Bytes) : Bytes :=
  if path = [] then dot
  else
    let out := (if path.head? = some Ch.slash then [Ch.slash] else [])
      ++ joinElements (cleanElements path)
    if out = [] then dot else out

/-- `filepath.Join` of two elements. -/
def Join (dir name : Bytes) : Bytes :=
  if dir = [] then if name = [] then [] else Clean name
  else Clean (dir ++ Ch.slash :: name)

/-! ## §2. The last element. -/

/-- An element that `Clean` leaves alone. -/
structure Ordinary (e : Bytes) : Prop where
  ne_nil : e ≠ []
  ne_dot : e ≠ dot
  ne_dotdot : e ≠ dotdot
  slash : Ch.slash ∉ e

/-- What `Join` puts in front of an ordinary element. -/
def dirPart (dir : Bytes) : Bytes :=
  if dir = [] then []
  else
    (if dir.head? = some Ch.slash then [Ch.slash] else [])
      ++ (match cleanElements dir with
        | [] => []
        | es => joinElements es ++ [Ch.slash])

theorem cleanStep_ordinary {e : Bytes} (h : Ordinary e) (rooted : Bool) (stack : List Bytes) :
    cleanStep rooted stack e = e :: stack := by
  unfold cleanStep
  rw [if_neg (not_or.mpr ⟨h.ne_nil, h.ne_dot⟩), if_neg h.ne_dotdot]

theorem head?_append_slash {dir : Bytes} (hne : dir ≠ []) (name : Bytes) :
    (dir ++ Ch.slash :: name).head? = dir.head? := by
  cases dir with
  | nil => exact absurd rfl hne
  | cons c dir => rfl

/-- The elements of a joined path: those of the directory, and the ordinary one. -/
theorem cleanElements_append {dir e : Bytes} (hne : dir ≠ []) (h : Ordinary e) :
    cleanElements (dir ++ Ch.slash :: e) = e :: cleanElements dir := by
  unfold cleanElements
  rw [head?_append_slash hne, List.splitOn_append_cons_self, List.splitOn_eq_singleton h.slash,
    List.foldl_append, List.foldl_cons, List.foldl_nil]
  exact cleanStep_ordinary h _ _

theorem joinElements_cons (e : Bytes) (es : List Bytes) :
    joinElements (e :: es)
      = (match es with
        | [] => []
        | es => joinElements es ++ [Ch.slash]) ++ e := by
  cases es with
  | nil => rfl
  | cons e' es =>
      show joinElements (e' :: es) ++ Ch.slash :: e = _
      simp

/-- **An ordinary last element is kept**, and what stands before it is the directory's. -/
theorem Join_eq (dir : Bytes) {e : Bytes} (h : Ordinary e) : Join dir e = dirPart dir ++ e := by
  unfold Join dirPart
  by_cases hdir : dir = []
  · -- the element alone
    rw [if_pos hdir, if_neg h.ne_nil, if_pos hdir, List.nil_append]
    have hhead : ¬ e.head? = some Ch.slash := fun hc => h.slash (List.mem_of_head? hc)
    have hone : cleanElements e = [e] := by
      unfold cleanElements
      rw [List.splitOn_eq_singleton h.slash]
      exact cleanStep_ordinary h _ _
    unfold Clean
    rw [if_neg h.ne_nil, if_neg hhead, hone]
    exact if_neg h.ne_nil
  · rw [if_neg hdir, if_neg hdir]
    unfold Clean
    rw [if_neg (by simp), head?_append_slash hdir, cleanElements_append hdir h,
      joinElements_cons, ← List.append_assoc]
    exact if_neg (by simp [h.ne_nil])

/-- **Two names never give one path.** -/
theorem Join_injective (dir : Bytes) {e e' : Bytes} (h : Ordinary e) (h' : Ordinary e')
    (heq : Join dir e = Join dir e') : e = e' := by
  rw [Join_eq dir h, Join_eq dir h'] at heq
  exact List.append_cancel_left heq

/-- A directory that is clean already stands before the name as it is. -/
example : Join (ascii "/run/socks") (ascii "a.sock") = ascii "/run/socks/a.sock"
    ∧ Join (ascii "/run//x/../socks/") (ascii "a.sock") = ascii "/run/socks/a.sock"
    ∧ Join (ascii ".") (ascii "a.sock") = ascii "a.sock"
    ∧ Join [] (ascii "a.sock") = ascii "a.sock"
    ∧ Join (ascii "/..") (ascii "a.sock") = ascii "/a.sock" := by decide +kernel

end TlsMigration.GoPath
