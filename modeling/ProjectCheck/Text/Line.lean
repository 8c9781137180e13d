/-!
Lines of a text. Ten characters end a line, and a carriage return with the line feed after it is one
end. A text that ends with a line end has no empty line after it.
-/
namespace ProjectCheck.Text

/-- Line feed, the tabs and feeds, carriage return, three information separators, next line, and the
line and paragraph separators. -/
def isLineEnd (c : Char) : Bool :=
  let n := c.toNat
  (10 ≤ n && n ≤ 13) || (28 ≤ n && n ≤ 30) || n == 0x85 || n == 0x2028 || n == 0x2029

def consLine (c : Char) : List (List Char) → List (List Char)
  | [] => [[c]]
  | line :: lines => (c :: line) :: lines

def splitLines : List Char → List (List Char)
  | [] => []
  | '\r' :: '\n' :: rest => [] :: splitLines rest
  | c :: rest => if isLineEnd c then [] :: splitLines rest else consLine c (splitLines rest)

def lines (text : String) : List String :=
  (splitLines text.toList).map String.ofList

def unifyNewlines : List Char → List Char
  | [] => []
  | '\r' :: '\n' :: rest => '\n' :: unifyNewlines rest
  | '\r' :: rest => '\n' :: unifyNewlines rest
  | c :: rest => c :: unifyNewlines rest

theorem isLineEnd_of_mem_consLine {c : Char} {xs : List (List Char)} (hc : isLineEnd c = false)
    (h : ∀ line ∈ xs, ∀ x ∈ line, isLineEnd x = false) :
    ∀ line ∈ consLine c xs, ∀ x ∈ line, isLineEnd x = false := by
  cases xs with
  | nil => simpa [consLine] using hc
  | cons first rest =>
    intro line hline x hx
    rcases List.mem_cons.1 hline with rfl | hline
    · rcases List.mem_cons.1 hx with rfl | hx
      · exact hc
      · exact h first (by simp) x hx
    · exact h line (by simp [hline]) x hx

/-- No line holds a line end. -/
theorem isLineEnd_of_mem_splitLines (s : List Char) :
    ∀ line ∈ splitLines s, ∀ x ∈ line, isLineEnd x = false := by
  fun_induction splitLines s with
  | case1 => simp
  | case2 rest ih => simpa using ih
  | case3 c rest _ hc ih => simpa using ih
  | case4 c rest _ hc ih => exact isLineEnd_of_mem_consLine (by simpa using hc) ih

end ProjectCheck.Text
