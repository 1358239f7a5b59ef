import ChainRegistry.Proofs.Toml.Values
import ChainRegistry.Proofs.Trees

/-!
# Lines of TOML read back

A line is a header or a pair, and it is read back as the statement it was written for.  Texts that
are read line by line may be put one behind the other, with or without an empty line between them.
-/

namespace ChainRegistry.Toml

open Node

/-! ## Keys -/

theorem isName_chars {key : String} (hkey : isName key = true) :
    key.toList ≠ [] ∧ ∀ c ∈ key.toList, isBareKeyChar c = true ∧ isBlank c = false := by
  simp only [isName, Bool.and_eq_true, Bool.not_eq_true', List.isEmpty_eq_false_iff,
    List.all_eq_true] at hkey
  obtain ⟨hne, hchars⟩ := hkey
  refine ⟨hne, ?_⟩
  intro c hc
  have hname := hchars c hc
  refine ⟨by rw [isBareKeyChar, hname, Bool.true_or], ?_⟩
  apply Bool.eq_false_iff.mpr
  intro hblank
  simp only [isBlank, Bool.or_eq_true, beq_iff_eq] at hblank
  rcases hblank with rfl | rfl <;> contradiction

/-- A name begins with a character that opens neither a line of another kind nor a quoted key. -/
theorem isName_eq_cons {key : String} (hkey : isName key = true) :
    ∃ c rest, key.toList = c :: rest ∧ isBareKeyChar c = true ∧ isBlank c = false := by
  obtain ⟨hne, hchars⟩ := isName_chars hkey
  cases hlist : key.toList with
  | nil => contradiction
  | cons c rest =>
      rw [hlist] at hchars
      exact ⟨c, rest, rfl, hchars c List.mem_cons_self⟩

theorem skipBlanks_name {key : String} (hkey : isName key = true) (rest : List Char) :
    skipBlanks (key.toList ++ rest) = key.toList ++ rest := by
  obtain ⟨c, more, hlist, -, hblank⟩ := isName_eq_cons hkey
  rw [hlist, List.cons_append]
  exact List.dropWhile_cons_of_neg (by simp [hblank])

/-- What stands behind a bare key. -/
def EndsKey (rest : List Char) : Prop :=
  ∀ c ∈ rest.head?, isBareKeyChar c = false

theorem endsKey_cons {c : Char} (hc : isBareKeyChar c = false) (rest : List Char) :
    EndsKey (c :: rest) := by
  intro d hd
  obtain rfl : c = d := by simpa using hd
  exact hc

theorem simpleKey?_name {key : String} (hkey : isName key = true) {rest : List Char}
    (hrest : EndsKey rest) :
    simpleKey? (key.toList ++ rest) = some (key, rest) := by
  obtain ⟨hne, hchars⟩ := isName_chars hkey
  have hbare : ∀ c ∈ key.toList, isBareKeyChar c = true := fun c hc => (hchars c hc).1
  have htake : (key.toList ++ rest).takeWhile isBareKeyChar = key.toList := by
    rw [List.takeWhile_append_of_pos hbare]
    cases rest with
    | nil => simp
    | cons c rest => simp [hrest c rfl]
  have hdrop : (key.toList ++ rest).dropWhile isBareKeyChar = rest := by
    rw [List.dropWhile_append_of_pos hbare]
    cases rest with
    | nil => rfl
    | cons c rest => simp [hrest c rfl]
  obtain ⟨c, more, hlist, hc, -⟩ := isName_eq_cons hkey
  unfold simpleKey?
  split
  next heq =>
    rw [hlist] at heq
    obtain ⟨rfl, -⟩ := List.cons.inj heq
    contradiction
  next heq =>
    rw [hlist] at heq
    obtain ⟨rfl, -⟩ := List.cons.inj heq
    contradiction
  next =>
    simp only [htake, hdrop, if_neg hne, String.ofList_toList]

/-- A path as it stands in a header. -/
def pathText (path : List String) : List Char :=
  List.intercalate ['.'] (path.map String.toList)

theorem pathText_singleton (key : String) : pathText [key] = key.toList :=
  List.intercalate_singleton

theorem pathText_cons (key name : String) (parents : List String) :
    pathText (key :: (parents ++ [name])) = key.toList ++ '.' :: pathText (parents ++ [name]) := by
  cases parents <;> simp [pathText, List.intercalate_cons_cons]

/-- What a path begins with does not open another kind of header. -/
theorem pathText_eq_cons {path : List String} (hne : path ≠ [])
    (hnames : ∀ key ∈ path, isName key = true) :
    ∃ c rest, pathText path = c :: rest ∧ isBareKeyChar c = true := by
  obtain ⟨key, below, rfl⟩ := List.exists_cons_of_ne_nil hne
  obtain ⟨c, more, hkey, hc, -⟩ := isName_eq_cons (hnames key List.mem_cons_self)
  rcases List.eq_nil_or_concat below with rfl | ⟨parents, name, rfl⟩
  · exact ⟨c, more, by rw [pathText_singleton, hkey], hc⟩
  · exact ⟨c, _, by rw [List.concat_eq_append, pathText_cons, hkey, List.cons_append], hc⟩

theorem keyParts?_names {parents : List String} (hparents : ∀ key ∈ parents, isName key = true)
    {name : String} (hname : isName name = true) {rest : List Char}
    (hrest : EndsKey rest)
    (hdot : (skipBlanks rest).head? ≠ some '.') {allowance : Nat}
    (hallowance : parents.length < allowance) :
    keyParts? allowance (pathText (parents ++ [name]) ++ rest) =
      some (parents, name, skipBlanks rest) := by
  induction parents generalizing allowance with
  | nil =>
      rw [List.length_nil] at hallowance
      obtain ⟨less, rfl⟩ : ∃ less, allowance = less + 1 := ⟨allowance - 1, by omega⟩
      simp only [List.nil_append, pathText_singleton, keyParts?, skipBlanks_name hname,
        simpleKey?_name hname hrest, Option.bind_eq_bind, Option.bind_some]
      split
      next heq =>
        rw [heq] at hdot
        exact absurd rfl hdot
      next => rfl
  | cons parent parents ih =>
      obtain ⟨hparent, hparents⟩ := List.forall_mem_cons.mp hparents
      rw [List.length_cons] at hallowance
      obtain ⟨less, rfl⟩ : ∃ less, allowance = less + 1 := ⟨allowance - 1, by omega⟩
      have hless : parents.length < less := by omega
      have hmore := ih hparents hless
      have hbehind := endsKey_cons (c := '.') (by decide) (pathText (parents ++ [name]) ++ rest)
      have hskip : skipBlanks ('.' :: (pathText (parents ++ [name]) ++ rest)) =
          '.' :: (pathText (parents ++ [name]) ++ rest) :=
        List.dropWhile_cons_of_neg (by decide)
      rw [List.cons_append, pathText_cons, List.append_assoc, List.cons_append]
      simp only [keyParts?, skipBlanks_name hparent, simpleKey?_name hparent hbehind,
        Option.bind_eq_bind, Option.bind_some, hskip, hmore]

theorem length_le_pathText {parents : List String} (name : String) (rest : List Char) :
    parents.length ≤ (pathText (parents ++ [name]) ++ rest).length := by
  induction parents with
  | nil => exact Nat.zero_le _
  | cons parent parents ih =>
      rw [List.cons_append, pathText_cons]
      simp only [List.length_append, List.length_cons] at ih ⊢
      omega

/-- The key of a table at a path, which is not empty. -/
def DottedKey.ofPath (path : List String) : DottedKey :=
  ⟨path.dropLast, path.getLast?.getD ""⟩

theorem DottedKey.ofPath_append (parents : List String) (name : String) :
    ofPath (parents ++ [name]) = ⟨parents, name⟩ := by
  simp [ofPath]

theorem key?_path {path : List String} (hne : path ≠ []) (hnames : ∀ key ∈ path, isName key = true)
    (hlength : path.length < deepest) {rest : List Char}
    (hrest : EndsKey rest)
    (hdot : (skipBlanks rest).head? ≠ some '.') :
    key? (pathText path ++ rest) =
      some (.ofPath path, skipBlanks rest) := by
  obtain ⟨parents, name, rfl⟩ : ∃ parents name, path = parents ++ [name] :=
    ⟨path.dropLast, path.getLast hne, (List.dropLast_concat_getLast hne).symm⟩
  have hparents : ∀ key ∈ parents, isName key = true :=
    fun key hkey => hnames key (List.mem_append_left _ hkey)
  have hname : isName name = true := hnames name (by simp)
  have hparts := keyParts?_names hparents hname hrest hdot
    (Nat.lt_succ_of_le (length_le_pathText name rest))
  rw [List.length_append, List.length_singleton] at hlength
  simp only [key?, hparts, Option.bind_eq_bind, Option.bind_some, if_neg (Nat.not_le.mpr hlength),
    DottedKey.ofPath_append]

/-! ## Lines -/

/-- A text is read line by line as some statements, whatever stands behind it. -/
def Reads (text : List Char) (found : List Statement) : Prop :=
  ∃ lines ≤ text.length, ∀ more rest,
    statements? (more + lines) (text ++ rest) = (statements? more rest).map (found ++ ·)

theorem reads_nil : Reads [] [] := by
  refine ⟨0, Nat.le_refl 0, ?_⟩
  intro more rest
  simp

theorem statements?_nil (lines : Nat) : statements? (lines + 1) [] = some [] := by
  simp [statements?, skipBlanks]

theorem Reads.eq_nil {found : List Statement} (h : Reads [] found) : found = [] := by
  obtain ⟨lines, hlines, hread⟩ := h
  obtain rfl : lines = 0 := Nat.le_zero.mp hlines
  have hread := hread 1 []
  rw [List.append_nil, statements?_nil] at hread
  simpa [eq_comm] using hread

theorem Reads.append {text text' : List Char} {found found' : List Statement}
    (htext : Reads text found) (htext' : Reads text' found') :
    Reads (text ++ text') (found ++ found') := by
  obtain ⟨lines, hlines, hread⟩ := htext
  obtain ⟨lines', hlines', hread'⟩ := htext'
  refine ⟨lines' + lines, by rw [List.length_append]; omega, ?_⟩
  intro more rest
  rw [List.append_assoc, ← Nat.add_assoc, hread, hread', Option.map_map]
  congr 1
  funext statements
  simp

theorem lineEnd?_lineEnd (rest : List Char) : lineEnd? ('\n' :: rest) = some rest := by
  simp [lineEnd?, skipBlanks, isBlank, skipComment]

theorem reads_emptyLine : Reads ['\n'] [] := by
  refine ⟨1, Nat.le_refl 1, ?_⟩
  intro more rest
  simp [statements?, skipBlanks, isBlank]

theorem skipBlanks_of_value? {allowance levels : Nat} {text : List Char} {read : Node × List Char}
    (hread : value? allowance levels text = some read) : skipBlanks text = text := by
  cases text with
  | nil => rfl
  | cons c text =>
      apply List.dropWhile_cons_of_neg
      intro hblank
      simp only [isBlank, Bool.or_eq_true, beq_iff_eq] at hblank
      rcases hblank with rfl | rfl
      all_goals
        rw [value?_eq_none (by decide)] at hread
        cases hread

/-- The text behind the key of a pair. -/
def pairEnd (text rest : List Char) : List Char :=
  " = ".toList ++ (text ++ '\n' :: rest)

theorem key?_pair {key : String} (hkey : isName key = true) (text rest : List Char) :
    key? (key.toList ++ pairEnd text rest) =
      some (⟨[], key⟩, '=' :: ' ' :: (text ++ '\n' :: rest)) := by
  have hequals : skipBlanks (pairEnd text rest) = '=' :: ' ' :: (text ++ '\n' :: rest) := by
    simp [pairEnd, skipBlanks, isBlank]
  have hbare : EndsKey (pairEnd text rest) := endsKey_cons (by decide) _
  have hdot : (skipBlanks (pairEnd text rest)).head? ≠ some '.' := by
    rw [hequals]
    simp
  have hread := key?_path (List.cons_ne_nil key []) (by simpa using hkey)
    (Nat.succ_lt_succ (Nat.succ_pos 78)) hbare hdot
  rw [hequals] at hread
  simpa [pathText_singleton, DottedKey.ofPath] using hread

theorem pair?_line {key : String} (hkey : isName key = true) {node : Node} {text : List Char}
    (htext : valueText? node = some text) (rest : List Char) :
    pair? (key.toList ++ pairEnd text rest) = some (.pair ⟨[], key⟩ node, rest) := by
  have hallowance : text.length + 2 ≤ 2 * (' ' :: (text ++ '\n' :: rest)).length + 2 := by
    simp only [List.length_cons, List.length_append]
    omega
  have hvalue := value?_valueText htext (endsValue_cons (c := '\n') (by decide) rest) hallowance 78
  have hgap : skipBlanks (' ' :: (text ++ '\n' :: rest)) = text ++ '\n' :: rest :=
    skipBlanks_of_value? hvalue
  have hlevels : deepest - 1 = 78 + 1 := rfl
  simp only [pair?, key?_pair hkey, Option.bind_eq_bind, Option.bind_some, hgap, hlevels, hvalue,
    lineEnd?_lineEnd]

theorem statements?_of_pair? {c : Char} (hc : isBareKeyChar c = true) (hblank : isBlank c = false)
    {text rest : List Char} {statement : Statement}
    (hpair : pair? (c :: text) = some (statement, rest)) (more : Nat) :
    statements? (more + 1) (c :: text) = (statements? more rest).map (statement :: ·) := by
  have hskip : skipBlanks (c :: text) = c :: text := List.dropWhile_cons_of_neg (by simp [hblank])
  have hhead : ∀ d ∈ ['\n', '\r', '#', '['], c ≠ d := by
    have hopens : ∀ d ∈ ['\n', '\r', '#', '['], isBareKeyChar d = false := by
      simp [isBareKeyChar]
    rintro d hd rfl
    rw [hopens c hd] at hc
    cases hc
  rw [statements?, hskip]
  split
  next heq => cases heq
  next heq => exact absurd (List.cons.inj heq).1 (hhead _ (by decide))
  next heq => exact absurd (List.cons.inj heq).1 (hhead _ (by decide))
  next heq => exact absurd (List.cons.inj heq).1 (hhead _ (by decide))
  next heq => exact absurd (List.cons.inj heq).1 (hhead _ (by decide))
  next =>
    simp only [hpair, Option.bind_eq_bind, Option.bind_some]
    cases statements? more rest <;> rfl

theorem reads_pair {key : String} (hkey : isName key = true) {node : Node} {text : List Char}
    (htext : valueText? node = some text) :
    Reads (key.toList ++ " = ".toList ++ text ++ ['\n']) [.pair ⟨[], key⟩ node] := by
  refine ⟨1, ?_, ?_⟩
  · simp only [List.length_append, List.length_singleton]
    omega
  · intro more rest
    have hline : key.toList ++ " = ".toList ++ text ++ ['\n'] ++ rest =
        key.toList ++ pairEnd text rest := by
      simp [pairEnd]
    obtain ⟨c, behind, hlist, hc, hblank⟩ := isName_eq_cons hkey
    have hread := pair?_line hkey htext rest
    rw [hline]
    rw [hlist] at hread ⊢
    exact statements?_of_pair? hc hblank hread more

theorem statements?_of_header? {text rest : List Char} {statement : Statement}
    (hheader : header? text = some (statement, rest)) (more : Nat) :
    statements? (more + 1) ('[' :: text) = (statements? more rest).map (statement :: ·) := by
  have hskip : skipBlanks ('[' :: text) = '[' :: text := List.dropWhile_cons_of_neg (by decide)
  rw [statements?, hskip]
  simp only [hheader, Option.bind_eq_bind, Option.bind_some]
  cases statements? more rest <;> rfl

theorem header?_path {path : List String} (hne : path ≠ [])
    (hnames : ∀ key ∈ path, isName key = true) (hlength : path.length < deepest)
    (rest : List Char) :
    header? (pathText path ++ ']' :: '\n' :: rest) =
      some (.table (.ofPath path), rest) := by
  have hskip : skipBlanks (']' :: '\n' :: rest) = ']' :: '\n' :: rest :=
    List.dropWhile_cons_of_neg (by decide)
  have hbare := endsKey_cons (c := ']') (by decide) ('\n' :: rest)
  have hdot : (skipBlanks (']' :: '\n' :: rest)).head? ≠ some '.' := by
    rw [hskip]
    simp
  have hkey := key?_path hne hnames hlength hbare hdot
  rw [hskip] at hkey
  have hhead : ∀ tail, pathText path ++ ']' :: '\n' :: rest ≠ '[' :: tail := by
    intro tail heq
    obtain ⟨c, more, hpath, hc⟩ := pathText_eq_cons hne hnames
    rw [hpath, List.cons_append] at heq
    obtain ⟨rfl, -⟩ := List.cons.inj heq
    contradiction
  unfold header?
  split
  next heq => exact absurd heq (hhead _)
  next => simp [hkey, lineEnd?_lineEnd]

theorem reads_header {path : List String} (hne : path ≠ [])
    (hnames : ∀ key ∈ path, isName key = true) (hlength : path.length < deepest) :
    Reads (headerLine path) [.table (.ofPath path)] := by
  refine ⟨1, by simp [headerLine], ?_⟩
  intro more rest
  have hline : headerLine path ++ rest =
      '[' :: (pathText path ++ ']' :: '\n' :: rest) := by
    simp [headerLine, pathText]
  rw [hline]
  exact statements?_of_header? (header?_path hne hnames hlength rest) more

end ChainRegistry.Toml
