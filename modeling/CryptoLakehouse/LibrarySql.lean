import Mathlib.Data.List.Induction
import Mathlib.Tactic.Common

/-! The lexical structure of SQL as far as values in a text need it: words, symbols, comments, quoted names and
string literals. In a literal two quotes stand for one, and literals with only white space and a line break
between them are one literal. The reader takes one character after the other. -/

namespace Sql

inductive Token where
  | word (text : List Char)
  | name (text : List Char)
  | literal (value : List Char)
  | symbol (c : Char)
  deriving DecidableEq

/-- What the reader is inside of. After `closed` a second quote may follow; `gap` is the white space behind a
literal, with or without a line break. -/
inductive Mode where
  | blank
  | word (text : List Char)
  | literal (value : List Char)
  | closed (value : List Char)
  | gap (value : List Char) (line : Bool)
  | name (text : List Char)
  | closedName (text : List Char)
  | dash
  | lineComment
  | slash
  | comment (depth : Nat)
  | commentStar (depth : Nat)
  | commentSlash (depth : Nat)
  deriving DecidableEq

def isNewline (c : Char) : Bool := c = '\n' || c = '\r'

def isSpace (c : Char) : Bool := c = ' ' || c = '\t' || c = '\x0b' || c = '\x0c' || isNewline c

def isWordChar (c : Char) : Bool := c.isAlphanum || c = '_' || c = '$' || 128 ≤ c.toNat

/-- A character in front of which nothing is open. -/
def start (c : Char) : List Token × Mode :=
  if isSpace c then ([], .blank)
  else if c = '\'' then ([], .literal [])
  else if c = '"' then ([], .name [])
  else if c = '-' then ([], .dash)
  else if c = '/' then ([], .slash)
  else if isWordChar c then ([], .word [c])
  else ([.symbol c], .blank)

/-- A token ends in front of a character. -/
def endToken (token : Token) (c : Char) : List Token × Mode := (token :: (start c).1, (start c).2)

def next : Mode → Char → List Token × Mode
  | .blank, c => start c
  | .word text, c => if isWordChar c then ([], .word (text ++ [c])) else endToken (.word text) c
  | .literal value, c => if c = '\'' then ([], .closed value) else ([], .literal (value ++ [c]))
  | .closed value, c =>
      if c = '\'' then ([], .literal (value ++ [c]))
      else if isSpace c then ([], .gap value (isNewline c))
      else endToken (.literal value) c
  | .gap value line, c =>
      if isSpace c then ([], .gap value (line || isNewline c))
      else if c = '\'' ∧ line = true then ([], .literal value)
      else endToken (.literal value) c
  | .name text, c => if c = '"' then ([], .closedName text) else ([], .name (text ++ [c]))
  | .closedName text, c => if c = '"' then ([], .name (text ++ [c])) else endToken (.name text) c
  | .dash, c => if c = '-' then ([], .lineComment) else endToken (.symbol '-') c
  | .lineComment, c => if isNewline c then ([], .blank) else ([], .lineComment)
  | .slash, c => if c = '*' then ([], .comment 0) else endToken (.symbol '/') c
  | .comment depth, c =>
      if c = '*' then ([], .commentStar depth)
      else if c = '/' then ([], .commentSlash depth)
      else ([], .comment depth)
  | .commentStar depth, c =>
      if c = '*' then ([], .commentStar depth)
      else if c = '/' then
        match depth with
        | 0 => ([], .blank)
        | depth + 1 => ([], .comment depth)
      else ([], .comment depth)
  | .commentSlash depth, c =>
      if c = '*' then ([], .comment (depth + 1))
      else if c = '/' then ([], .commentSlash depth)
      else ([], .comment depth)

/-- What the end of the text means; `none` is a literal, a name or a comment that is left open. -/
def finish : Mode → Option (List Token)
  | .blank | .lineComment => some []
  | .word text => some [.word text]
  | .closed value | .gap value _ => some [.literal value]
  | .closedName text => some [.name text]
  | .dash => some [.symbol '-']
  | .slash => some [.symbol '/']
  | .literal _ | .name _ | .comment _ | .commentStar _ | .commentSlash _ => none

def feed : Mode → List Char → List Token × Mode
  | m, [] => ([], m)
  | m, c :: text => ((next m c).1 ++ (feed (next m c).2 text).1, (feed (next m c).2 text).2)

def tokens (text : List Char) : Option (List Token) :=
  (finish (feed .blank text).2).map ((feed .blank text).1 ++ ·)

section Feed

variable {m m' : Mode} {out : List Token} {text : List Char}

theorem feed_append (m : Mode) (text text' : List Char) : feed m (text ++ text') =
    ((feed m text).1 ++ (feed (feed m text).2 text').1, (feed (feed m text).2 text').2) := by
  induction text generalizing m with
  | nil => rfl
  | cons c text ih => rw [List.cons_append, feed, feed, ih, List.append_assoc]

/-- The rest of a text is read from where its beginning ends. -/
theorem feed_append_of (h : feed m text = (out, m')) (text' : List Char) :
    feed m (text ++ text') = (out ++ (feed m' text').1, (feed m' text').2) := by
  rw [feed_append, h]

theorem feed_snoc (h : feed m text = (out, m')) (c : Char) :
    feed m (text ++ [c]) = (out ++ (next m' c).1, (next m' c).2) := by
  rw [feed_append_of h, feed, feed, List.append_nil]

end Feed

section RoundTrip

/-- Every quote is doubled. -/
def escape : List Char → List Char
  | [] => []
  | c :: value => if c = '\'' then '\'' :: '\'' :: escape value else c :: escape value

/-- Inside a literal an escaped text stands for itself. -/
theorem feed_escape (read value : List Char) :
    feed (.literal read) (escape value) = ([], .literal (read ++ value)) := by
  induction value generalizing read with
  | nil => rw [escape, feed, List.append_nil]
  | cons c value ih =>
      rw [escape]
      split
      · rename_i hquote
        rw [feed, feed, next, if_pos rfl, next, if_pos rfl, ih, hquote, List.append_assoc, List.singleton_append]
        rfl
      · rename_i hother
        rw [feed, next, if_neg hother, ih, List.append_assoc, List.singleton_append]
        rfl

theorem escape_eq_self {value : List Char} (h : '\'' ∉ value) : escape value = value := by
  induction value with
  | nil => rfl
  | cons c value ih =>
      obtain ⟨hc, hvalue⟩ := not_or.mp (mt List.mem_cons.mpr h)
      rw [escape, if_neg (Ne.symm hc), ih hvalue]

/-- A text without quotes needs no escape. -/
theorem feed_of_not_mem (read : List Char) {value : List Char} (h : '\'' ∉ value) :
    feed (.literal read) value = ([], .literal (read ++ value)) := by
  rw [← escape_eq_self h, feed_escape, escape_eq_self h]

end RoundTrip

section Unescaped

/-- Reading `value` between quotes without an escape: a quote in it costs at least one character. -/
inductive Reading (value : List Char) : List Token → Mode → Prop where
  | inside (read : List Char) (hread : ('\'' ∉ value ∧ read = value) ∨ read.length < value.length) :
      Reading value [] (.literal read)
  | closed (read before : List Char) (hvalue : value = before ++ ['\'']) (hread : read.length < value.length) :
      Reading value [] (.closed read)
  | gap (read : List Char) (line : Bool) (before : List Char) (a b : Char) (hvalue : value = before ++ [a, b])
      (ha : a = '\'' ∨ isSpace a = true) (hb : isSpace b = true) (hread : read.length < value.length) :
      Reading value [] (.gap read line)
  | ended (read : List Char) (out : List Token) (m : Mode) (hread : read.length < value.length) :
      Reading value (.literal read :: out) m

variable {value : List Char} {out : List Token} {m : Mode}

theorem Reading.next (h : Reading value out m) (c : Char) :
    Reading (value ++ [c]) (out ++ (next m c).1) (next m c).2 := by
  have hlength : (value ++ [c]).length = value.length + 1 := by simp
  cases h with
  | inside read hread =>
      rw [Sql.next]
      split_ifs with hquote
      · refine .closed read value (by rw [hquote]) ?_
        obtain ⟨-, rfl⟩ | hlt := hread <;> omega
      · refine .inside (read ++ [c]) ?_
        obtain ⟨hnone, rfl⟩ | hlt := hread
        · exact .inl ⟨by simpa using ⟨hnone, Ne.symm hquote⟩, rfl⟩
        · exact .inr (by simpa using hlt)
  | closed read before hvalue hread =>
      rw [Sql.next]
      split_ifs with hquote hspace
      · exact .inside (read ++ [c]) (.inr (by simpa using hread))
      · refine .gap read _ before '\'' c ?_ (.inl rfl) hspace (by omega)
        rw [hvalue, List.append_assoc, List.singleton_append]
      · exact .ended read _ _ (by omega)
  | gap read line before a b hvalue ha hb hread =>
      rw [Sql.next]
      split_ifs with hspace hline
      · refine .gap read _ (before ++ [a]) b c ?_ (.inr hb) hspace (by omega)
        rw [hvalue, List.append_assoc, List.append_assoc]
        rfl
      · exact .inside read (.inr (by omega))
      · exact .ended read _ _ (by omega)
  | ended read out m hread => exact .ended read _ _ (by omega)

theorem reading_feed (value : List Char) :
    Reading value (feed (.literal []) value).1 (feed (.literal []) value).2 := by
  induction value using List.reverseRecOn with
  | nil => exact .inside [] (.inl ⟨List.not_mem_nil, rfl⟩)
  | append_singleton value c ih =>
      rw [feed_snoc rfl]
      exact ih.next c

/-- A text with a quote is not what is read back between two quotes, whatever it is: the literal that its
quotes make is another one. Behind it come a comma and the next literal. -/
theorem head_feed_ne (hquote : '\'' ∈ value) {c : Char} (hc : c ≠ '\'') (hspace : isSpace c = false)
    (rest : List Char) : ∃ read, read ≠ value ∧
      (feed (.literal []) (value ++ '\'' :: ',' :: ' ' :: '\'' :: c :: rest)).1.head? = some (.literal read) := by
  have hcomma : isSpace ',' = false := rfl
  have hopens : isSpace '\'' = false := rfl
  have hne : ∀ read : List Char, read.length < value.length → read ≠ value := by
    intro read hlt heq
    rw [heq] at hlt
    exact Nat.lt_irrefl _ hlt
  have hreading := reading_feed value
  rw [feed_append]
  generalize feed (.literal []) value = reached at hreading
  obtain ⟨out, m⟩ := reached
  cases hreading with
  | inside read hread =>
      refine ⟨read, ?_, by simp [feed, next, hcomma, endToken]⟩
      obtain ⟨hnone, -⟩ | hlt := hread
      · exact absurd hquote hnone
      · exact hne read hlt
  | closed read before hvalue hread =>
      -- the first quote behind the text is the second of two
      refine ⟨read ++ ['\'', ',', ' '], ?_, by simp [feed, next, hspace, hc, endToken]⟩
      intro heq
      have hlast := congrArg List.getLast? (heq.trans hvalue)
      simp at hlast
  | gap read line before a b hvalue ha hb hread =>
      cases line with
      | false => exact ⟨read, hne read hread, by simp [feed, next, isSpace, isNewline, endToken]⟩
      | true =>
          -- the first quote behind the text opens it again
          refine ⟨read ++ [',', ' '], ?_, by simp [feed, next, hopens, hspace, hc, endToken]⟩
          intro heq
          have hends : [',', ' '] = [a, b] := List.append_inj_right' (heq.trans hvalue) rfl
          obtain ⟨rfl, -⟩ := List.cons.inj hends
          obtain hopen | hspace' := ha
          · exact absurd hopen (by decide)
          · exact absurd hspace' (by decide)
  | ended read out m hread => exact ⟨read, hne read hread, rfl⟩

end Unescaped

end Sql
