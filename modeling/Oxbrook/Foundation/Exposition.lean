import Mathlib.Data.List.Basic
import Mathlib.Order.Basic
import Mathlib.Tactic.Common

/-!
# The text format of metrics

A scraper reads a document line by line.  A line that begins with `#` says something about the samples after it; every
other line is a sample: its name, labels between braces if it has any, and its value.  The value of a label stands
between double quotes, with a backslash before each backslash and double quote and `\n` for a line feed.

`readDocument_text` is the round trip: a document whose labels are written that way is read back as it was meant,
whatever characters the values of its labels have.
-/

namespace Exposition

/-- A sample as a scraper takes it in. -/
structure Sample where
  name : List Char
  labels : List (List Char × List Char)
  value : List Char
  deriving DecidableEq

/-- A line as it is meant. -/
inductive Line
  | comment (text : List Char)
  | sample (s : Sample)

/-! ## Writing -/

def nameChar (c : Char) : Bool := c.isAlphanum || c == '_' || c == ':'

/-- One character of a label's value. -/
def quotedChar (c : Char) : List Char :=
  if c = '\\' then ['\\', '\\'] else if c = '"' then ['\\', '"'] else if c = '\n' then ['\\', 'n'] else [c]

def quoted (value : List Char) : List Char := value.flatMap quotedChar

def labelText (label : List Char × List Char) : List Char := label.1 ++ ['=', '"'] ++ quoted label.2 ++ ['"']

/-- Labels with a comma between them. -/
def labelsText : List (List Char × List Char) → List Char
  | [] => []
  | [label] => labelText label
  | label :: next :: labels => labelText label ++ [','] ++ labelsText (next :: labels)

def Sample.text (s : Sample) : List Char :=
  s.name ++ (if s.labels = [] then [] else ['{'] ++ labelsText s.labels ++ ['}']) ++ [' '] ++ s.value

def Line.text : Line → List Char
  | .comment text => '#' :: text
  | .sample s => s.text

def documentText (lines : List Line) : List Char := lines.flatMap fun line => line.text ++ ['\n']

/-! ## Reading -/

def unquotedChar (c : Char) : Option Char :=
  if c = '\\' then some '\\' else if c = '"' then some '"' else if c = 'n' then some '\n' else none

/-- The value of a label, up to its closing quote, and what stands after it. -/
def readQuoted : List Char → Option (List Char × List Char)
  | [] => none
  | '"' :: rest => some ([], rest)
  | ['\\'] => none
  | '\\' :: c :: rest =>
    (unquotedChar c).bind fun d => (readQuoted rest).map fun found => (d :: found.1, found.2)
  | c :: rest => (readQuoted rest).map fun found => (c :: found.1, found.2)

/-- Labels up to the closing brace, and what stands after it. -/
def readLabels : ℕ → List Char → Option (List (List Char × List Char) × List Char)
  | 0, _ => none
  | fuel + 1, text =>
    match text.dropWhile nameChar with
    | '=' :: '"' :: more =>
      match readQuoted more with
      | some (value, ',' :: rest) =>
        (readLabels fuel rest).map fun found => ((text.takeWhile nameChar, value) :: found.1, found.2)
      | some (value, '}' :: rest) => some ([(text.takeWhile nameChar, value)], rest)
      | _ => none
    | _ => none

def readSample (line : List Char) : Option Sample :=
  match line.dropWhile nameChar with
  | '{' :: more =>
    match readLabels more.length more with
    | some (labels, ' ' :: value) => some ⟨line.takeWhile nameChar, labels, value⟩
    | _ => none
  | ' ' :: value => some ⟨line.takeWhile nameChar, [], value⟩
  | _ => none

def readLines : ℕ → List Char → Option (List Sample)
  | _, [] => some []
  | 0, _ => none
  | fuel + 1, text =>
    match text.dropWhile (· != '\n') with
    | [] => none
    | _ :: rest =>
      if text.head? = some '#' then readLines fuel rest
      else (readSample (text.takeWhile (· != '\n'))).bind fun s => (readLines fuel rest).map (s :: ·)

/-- The samples of a document, each line of which ends with a line feed. -/
def readDocument (text : List Char) : Option (List Sample) := readLines text.length text

/-! ## The round trip -/

/-- **The value of a label is read back.** -/
theorem readQuoted_quoted (value rest : List Char) : readQuoted (quoted value ++ '"' :: rest) = some (value, rest) := by
  induction value with
  | nil => rfl
  | cons c value ih =>
    have hcons : quoted (c :: value) = quotedChar c ++ quoted value := rfl
    rw [hcons, List.append_assoc]
    by_cases hbackslash : c = '\\'
    · subst hbackslash
      simp [quotedChar, readQuoted, unquotedChar, ih]
    by_cases hquote : c = '"'
    · subst hquote
      simp [quotedChar, readQuoted, unquotedChar, ih]
    by_cases hfeed : c = '\n'
    · subst hfeed
      simp [quotedChar, readQuoted, unquotedChar, ih]
    · simp [quotedChar, readQuoted, hbackslash, hquote, hfeed, ih]

/-- Names are told from what stands after them. -/
lemma takeWhile_name (name rest : List Char) (hname : ∀ c ∈ name, nameChar c = true)
    (hrest : ∀ c ∈ rest.head?, nameChar c = false) :
    (name ++ rest).takeWhile nameChar = name ∧ (name ++ rest).dropWhile nameChar = rest := by
  rw [List.takeWhile_append_of_pos hname, List.dropWhile_append_of_pos hname]
  cases rest with
  | nil => simp
  | cons c rest =>
    have hc : nameChar c = false := hrest c rfl
    simp [hc]

/-- What can be written as labels: names that are told from what stands after them. -/
def Named (labels : List (List Char × List Char)) : Prop := ∀ label ∈ labels, ∀ c ∈ label.1, nameChar c = true

lemma readLabels_text {labels : List (List Char × List Char)} (hne : labels ≠ []) (hnamed : Named labels)
    (rest : List Char) {fuel : ℕ} (hfuel : labels.length ≤ fuel) :
    readLabels fuel (labelsText labels ++ '}' :: rest) = some (labels, rest) := by
  induction labels generalizing fuel with
  | nil => exact absurd rfl hne
  | cons label labels ih =>
    obtain ⟨fuel, rfl⟩ := Nat.exists_eq_succ_of_ne_zero (n := fuel) (by
      rw [List.length_cons] at hfuel
      omega)
    have hlabel : ∀ c ∈ label.1, nameChar c = true := hnamed label List.mem_cons_self
    have hnext : ∀ more : List Char, labelText label ++ more =
        label.1 ++ ('=' :: '"' :: (quoted label.2 ++ '"' :: more)) := by
      intro more
      simp [labelText]
    have hparts := fun more : List Char => takeWhile_name label.1
      ('=' :: '"' :: (quoted label.2 ++ '"' :: more)) hlabel (by
        intro c hc
        rw [List.head?_cons, Option.mem_some_iff] at hc
        rw [← hc]
        decide)
    cases labels with
    | nil =>
      rw [labelsText, hnext, readLabels, (hparts _).1, (hparts _).2]
      simp only [readQuoted_quoted]
    | cons next labels =>
      have hrest := ih (List.cons_ne_nil _ _) (fun l hl => hnamed l (List.mem_cons_of_mem _ hl))
        (Nat.le_of_succ_le_succ hfuel)
      rw [labelsText, List.append_assoc, List.append_assoc, hnext, readLabels, (hparts _).1, (hparts _).2]
      simp only [readQuoted_quoted, List.singleton_append, hrest, Option.map_some]

lemma length_le_labelsText (labels : List (List Char × List Char)) : labels.length ≤ (labelsText labels).length := by
  induction labels with
  | nil => exact Nat.le_refl 0
  | cons label labels ih =>
    have hone : 1 ≤ (labelText label).length := by
      unfold labelText
      simp only [List.length_append, List.length_cons]
      omega
    cases labels with
    | nil => simpa [labelsText] using hone
    | cons next labels =>
      rw [labelsText, List.length_append, List.length_append]
      simp only [List.length_cons, List.length_nil] at ih ⊢
      omega

/-- What can be written as a sample. -/
structure Sample.Plain (s : Sample) : Prop where
  name : ∀ c ∈ s.name, nameChar c = true
  labels : Named s.labels
  value : '\n' ∉ s.value

theorem readSample_text {s : Sample} (h : s.Plain) : readSample s.text = some s := by
  unfold readSample Sample.text
  by_cases hnil : s.labels = []
  · have hparts := takeWhile_name s.name (' ' :: s.value) h.name (by
      intro c hc
      rw [List.head?_cons, Option.mem_some_iff] at hc
      rw [← hc]
      decide)
    rw [if_pos hnil, List.append_nil, List.append_assoc, List.singleton_append, hparts.1, hparts.2]
    simp [← hnil]
  · have hparts := takeWhile_name s.name ('{' :: (labelsText s.labels ++ '}' :: ' ' :: s.value)) h.name (by
      intro c hc
      rw [List.head?_cons, Option.mem_some_iff] at hc
      rw [← hc]
      decide)
    have htext : s.name ++ (['{'] ++ labelsText s.labels ++ ['}']) ++ [' '] ++ s.value =
        s.name ++ '{' :: (labelsText s.labels ++ '}' :: ' ' :: s.value) := by simp
    have hlength : s.labels.length ≤ (labelsText s.labels ++ '}' :: ' ' :: s.value).length := by
      rw [List.length_append]
      exact Nat.le_add_right_of_le (length_le_labelsText s.labels)
    rw [if_neg hnil, htext, hparts.1, hparts.2]
    simp only [readLabels_text hnil h.labels _ hlength]

/-! ## Documents -/

lemma feed_notMem_quoted (value : List Char) : '\n' ∉ quoted value := by
  intro h
  obtain ⟨c, -, hc⟩ := List.mem_flatMap.mp h
  unfold quotedChar at hc
  split_ifs at hc with hbackslash hquote hfeed
  · simp at hc
  · simp at hc
  · simp at hc
  · rw [List.mem_singleton] at hc
    exact hfeed hc.symm

lemma feed_notMem_name {name : List Char} (hname : ∀ c ∈ name, nameChar c = true) : '\n' ∉ name := by
  intro h
  have hfeed := hname '\n' h
  revert hfeed
  decide

lemma feed_notMem_labelsText {labels : List (List Char × List Char)} (hnamed : Named labels) :
    '\n' ∉ labelsText labels := by
  induction labels with
  | nil => exact List.not_mem_nil
  | cons label labels ih =>
    have hlabel : '\n' ∉ labelText label := by
      have hname := feed_notMem_name (hnamed label List.mem_cons_self)
      simp [labelText, hname, feed_notMem_quoted]
    cases labels with
    | nil => exact hlabel
    | cons next labels =>
      have hrest := ih fun l hl => hnamed l (List.mem_cons_of_mem _ hl)
      simp [labelsText, hlabel, hrest]

lemma feed_notMem_text {s : Sample} (h : s.Plain) : '\n' ∉ s.text := by
  unfold Sample.text
  by_cases hnil : s.labels = []
  · simp [hnil, feed_notMem_name h.name, h.value]
  · simp [hnil, feed_notMem_name h.name, feed_notMem_labelsText h.labels, h.value]

lemma head_text {s : Sample} (h : s.Plain) (rest : List Char) : (s.text ++ rest).head? ≠ some '#' := by
  unfold Sample.text
  cases hname : s.name with
  | cons c name =>
    have hc := h.name c (hname ▸ List.mem_cons_self)
    intro heq
    rw [List.cons_append, List.cons_append, List.cons_append, List.cons_append, List.head?_cons,
      Option.some_inj] at heq
    subst heq
    revert hc
    decide
  | nil =>
    split_ifs <;> simp

/-- A line as it can be written. -/
def Line.Plain : Line → Prop
  | .comment text => '\n' ∉ text
  | .sample s => s.Plain

/-- The samples of the lines. -/
def Line.sample? : Line → Option Sample
  | .comment _ => none
  | .sample s => some s

lemma readLines_text {lines : List Line} (h : ∀ line ∈ lines, line.Plain) {fuel : ℕ} (hfuel : lines.length ≤ fuel) :
    readLines fuel (documentText lines) = some (lines.filterMap Line.sample?) := by
  induction lines generalizing fuel with
  | nil => cases fuel <;> rfl
  | cons line lines ih =>
    obtain ⟨fuel, rfl⟩ := Nat.exists_eq_succ_of_ne_zero (n := fuel) (by
      rw [List.length_cons] at hfuel
      omega)
    have hrest := ih (fun l hl => h l (List.mem_cons_of_mem _ hl)) (Nat.le_of_succ_le_succ hfuel)
    have hline := h line List.mem_cons_self
    have hfeed : ∀ text : List Char, '\n' ∉ text → ∀ more : List Char,
        (text ++ '\n' :: more).takeWhile (· != '\n') = text ∧
          (text ++ '\n' :: more).dropWhile (· != '\n') = '\n' :: more := by
      intro text htext more
      have hall : ∀ c ∈ text, (c != '\n') = true := by
        intro c hc
        exact bne_iff_ne.mpr fun heq => htext (heq ▸ hc)
      rw [List.takeWhile_append_of_pos hall, List.dropWhile_append_of_pos hall]
      simp
    have hdocument : documentText (line :: lines) = line.text ++ '\n' :: documentText lines := by
      simp [documentText]
    have hne : line.text ++ '\n' :: documentText lines ≠ [] := by simp
    rw [hdocument]
    cases line with
    | comment text =>
      have htext : '\n' ∉ '#' :: text := by
        rw [List.mem_cons, not_or]
        exact ⟨by decide, hline⟩
      rw [readLines.eq_3 _ _ hne, Line.text, (hfeed _ htext _).2]
      simp only [List.cons_append, List.head?_cons, if_true, hrest, List.filterMap_cons, Line.sample?]
    | sample s =>
      have hparts := hfeed s.text (feed_notMem_text hline) (documentText lines)
      rw [readLines.eq_3 _ _ hne, Line.text, hparts.1, hparts.2]
      simp only [if_neg (head_text hline _), readSample_text hline, Option.bind_some, hrest, Option.map_some,
        List.filterMap_cons, Line.sample?]

/-- **A document is read back as it was meant.** -/
theorem readDocument_text {lines : List Line} (h : ∀ line ∈ lines, line.Plain) :
    readDocument (documentText lines) = some (lines.filterMap Line.sample?) := by
  apply readLines_text h
  clear h
  induction lines with
  | nil => exact Nat.le_refl 0
  | cons line lines ih =>
    have hcons : documentText (line :: lines) = line.text ++ '\n' :: documentText lines := by
      simp [documentText]
    rw [hcons, List.length_append, List.length_cons, List.length_cons]
    omega

end Exposition
