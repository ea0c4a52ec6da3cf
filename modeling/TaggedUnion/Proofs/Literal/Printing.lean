import TaggedUnion.Proofs.Literal.Depth
import TaggedUnion.Proofs.Literal.Layout
import TaggedUnion.Proofs.Literal.Parsing
import TaggedUnion.Proofs.Literal.Rendering

/-!
# Literals are read back as they are written

A tree is written token by token, with any spelling of its strings, and the tokens are laid out in
any way. Reading the text gives the tree, apart from its positions.

* `Node.IsWritable`: the trees whose names and numbers are spelled as names and numbers.
* `Node.lexemes`: the tokens of a tree.
* `parse_layOut`: a text with these tokens is read as the tree.
-/

namespace TaggedUnion.Literal

/-! ## A single token -/

section Single

variable {lexeme : Lexeme} {value : Value}

/-- What is scanned as a whole is the only token of its text. -/
theorem tokenize_lexeme (h : lexeme.Scans []) :
    tokenize (String.ofList lexeme.text) = .ok [lexeme.token 0] := by
  have hlexed : Lexed 0 _ _ := h.lexed .nil
  rw [List.append_nil] at hlexed
  rw [tokenize, String.toList_ofList]
  exact tokenizeFrom_eq_ok_iff.mpr hlexed

/-- A text that is a single token is read as what the token says. -/
theorem parse_lexeme (h : lexeme.Scans []) (hmeaning : Says (lexeme.token 0) value) :
    parse (String.ofList lexeme.text) = .ok ⟨value, ⟨0, Text.byteSize lexeme.text⟩⟩ := by
  have hshallow : Shallow [lexeme.token 0] :=
    shallow_iff_fits.mpr (fits_of_openings_eq_zero (Nat.zero_le _) hmeaning.openings)
  have hparse := parse_eq_ok_iff.mpr ⟨_, tokenize_lexeme h, .single hmeaning, hshallow⟩
  rw [hparse]
  simp [Lexeme.token]

end Single

/-! ## Strings in JSON text -/

theorem hexValue?_hexDigit : ∀ n < 16, Text.hexValue? (Json.hexDigit n) = some n := by
  decide

/-- A character is written between quotes as it is or as an escape. -/
theorem quotes_cons_escaped {text contents : List Char} (c : Char) (h : Quotes text contents) :
    Quotes (Json.escaped c ++ text) (c :: contents) := by
  unfold Json.escaped
  split_ifs with hquote hslash hnewline hreturn htab hbackspace hfeed hcontrol
  · exact .escape (.letter (by rw [hquote]; rfl)) h
  · exact .escape (.letter (by rw [hslash]; rfl)) h
  · exact .escape (.letter (by rw [hnewline]; rfl)) h
  · exact .escape (.letter (by rw [hreturn]; rfl)) h
  · exact .escape (.letter (by rw [htab]; rfl)) h
  · exact .escape (.letter (by rw [hbackspace]; rfl)) h
  · exact .escape (.letter (by rw [hfeed]; rfl)) h
  · have hhigh := hexValue?_hexDigit (c.toNat / 16) (by omega)
    have hlow := hexValue?_hexDigit (c.toNat % 16) (by omega)
    exact .escape (.code rfl rfl hhigh hlow (by omega)) h
  · exact .plain hquote hslash hnewline h

/-- The text of a string in JSON spells it in a literal too. -/
theorem quotes_escaped (contents : List Char) :
    Quotes (contents.flatMap Json.escaped) contents := by
  induction contents with
  | nil => exact .nil
  | cons c contents ih => exact quotes_cons_escaped c ih

/-! ## Writing -/

/-- A bare name. -/
def Lexeme.name (text : String) : Lexeme := ⟨.name, text.toList⟩

mutual

/-- The tokens of a literal, `spell` being what is written between the quotes of a string. -/
def Node.lexemes (spell : String → List Char) : Node → List Lexeme
  | ⟨value, _⟩ => value.lexemes spell

/-- `Node.lexemes` for the parts of a literal. -/
def Value.lexemes (spell : String → List Char) : Value → List Lexeme
  | .null => [.name "null"]
  | .boolean value => [.name (if value then "true" else "false")]
  | .enum name => [.name name]
  | .int text => [⟨.int, text.toList⟩]
  | .float text => [⟨.float, text.toList⟩]
  | .string contents => [⟨.string, '"' :: (spell contents ++ ['"'])⟩]
  | .list items => ⟨.bracketOpen, ['[']⟩ :: (lexemesOfItems spell items ++ [⟨.bracketClose, [']']⟩])
  | .object fields =>
    ⟨.braceOpen, ['\x7b']⟩ :: (lexemesOfFields spell fields ++ [⟨.braceClose, ['\x7d']⟩])

/-- `Node.lexemes` for each item. -/
def lexemesOfItems (spell : String → List Char) : List Node → List Lexeme
  | [] => []
  | item :: rest => item.lexemes spell ++ lexemesOfItems spell rest

/-- `Node.lexemes` for each field, its name and a colon in front. -/
def lexemesOfFields (spell : String → List Char) : List Field → List Lexeme
  | [] => []
  | ⟨name, value, _⟩ :: rest =>
    .name name.text :: ⟨.colon, [':']⟩ :: (value.lexemes spell ++ lexemesOfFields spell rest)

end

theorem lexemesOfFields_cons {spell : String → List Char} {field : Field} {rest : List Field} :
    lexemesOfFields spell (field :: rest) = .name field.name.text :: ⟨.colon, [':']⟩ ::
      (field.value.lexemes spell ++ lexemesOfFields spell rest) := by
  cases field
  rw [lexemesOfFields]

/-- The trees that can be written: numbers are spelled as such, and an enum value is a name that
says nothing else. -/
inductive Node.IsWritable : Node → Prop where
  | null {span : Span} : IsWritable ⟨.null, span⟩
  | boolean {value : Bool} {span : Span} : IsWritable ⟨.boolean value, span⟩
  | int {n : Numeral} {span : Span} (hn : n.IsProper) (hint : n.isInteger) :
    IsWritable ⟨.int (String.ofList n.text), span⟩
  | float {n : Numeral} {span : Span} (hn : n.IsProper) (hfloat : n.isInteger = false) :
    IsWritable ⟨.float (String.ofList n.text), span⟩
  | string {contents : String} {span : Span} : IsWritable ⟨.string contents, span⟩
  | enum {name : String} {span : Span} (hname : Text.isBareName name) :
    IsWritable ⟨.enum name, span⟩
  | list {items : List Node} {span : Span} (hitems : ∀ item ∈ items, item.IsWritable) :
    IsWritable ⟨.list items, span⟩
  | object {fields : List Field} {span : Span}
    (hnames : ∀ field ∈ fields, Text.isName field.name.text)
    (hvalues : ∀ field ∈ fields, field.value.IsWritable) : IsWritable ⟨.object fields, span⟩

section Writing

variable {spell : String → List Char} {node : Node}

theorem isProper_lexemesOfItems {items : List Node}
    (h : ∀ item ∈ items, ∀ lexeme ∈ item.lexemes spell, lexeme.IsProper) :
    ∀ lexeme ∈ lexemesOfItems spell items, lexeme.IsProper := by
  induction items with
  | nil => simp [lexemesOfItems]
  | cons item rest ih =>
    obtain ⟨hitem, hrest⟩ := List.forall_mem_cons.mp h
    rw [lexemesOfItems]
    exact List.forall_mem_append.mpr ⟨hitem, ih hrest⟩

theorem isProper_lexemesOfFields {fields : List Field}
    (hnames : ∀ field ∈ fields, Text.isName field.name.text)
    (h : ∀ field ∈ fields, ∀ lexeme ∈ field.value.lexemes spell, lexeme.IsProper) :
    ∀ lexeme ∈ lexemesOfFields spell fields, lexeme.IsProper := by
  induction fields with
  | nil => simp [lexemesOfFields]
  | cons field rest ih =>
    obtain ⟨hname, hnames⟩ := List.forall_mem_cons.mp hnames
    obtain ⟨hfield, hrest⟩ := List.forall_mem_cons.mp h
    rw [lexemesOfFields_cons]
    exact List.forall_mem_cons.mpr ⟨.name hname, List.forall_mem_cons.mpr
      ⟨.mark rfl, List.forall_mem_append.mpr ⟨hfield, ih hnames hrest⟩⟩⟩

theorem isProper_bracketed {opening closing : Lexeme} {inner : List Lexeme}
    (hopening : opening.IsProper) (hclosing : closing.IsProper)
    (hinner : ∀ lexeme ∈ inner, lexeme.IsProper) :
    ∀ lexeme ∈ opening :: (inner ++ [closing]), lexeme.IsProper := by
  simpa [or_imp, forall_and] using ⟨hopening, hinner, hclosing⟩

/-- The tokens of a tree are spelled as their kinds ask. -/
theorem Node.IsWritable.isProper (hspell : ∀ contents, Quotes (spell contents) contents.toList)
    (h : node.IsWritable) : ∀ lexeme ∈ node.lexemes spell, lexeme.IsProper := by
  induction h with
  | null => simpa [lexemes, Value.lexemes] using .name rfl
  | @boolean value =>
    cases value <;> simpa [lexemes, Value.lexemes] using .name rfl
  | int hn hint => simpa [lexemes, Value.lexemes] using .int hn hint
  | float hn hfloat => simpa [lexemes, Value.lexemes] using .float hn hfloat
  | @string contents => simpa [lexemes, Value.lexemes] using .string (hspell contents)
  | enum hname =>
    simp only [Text.isBareName, Bool.and_eq_true] at hname
    simpa [lexemes, Value.lexemes] using .name hname.1.1.1
  | list _ ih =>
    rw [lexemes, Value.lexemes]
    exact isProper_bracketed (.mark rfl) (.mark rfl) (isProper_lexemesOfItems ih)
  | object hnames _ ih =>
    rw [lexemes, Value.lexemes]
    exact isProper_bracketed (.mark rfl) (.mark rfl) (isProper_lexemesOfFields hnames ih)

end Writing

/-! ## Reading back -/

/-- The tokens are a literal that is the given one apart from positions, and that takes no more room
than that one is deep. -/
structure Rebuilds (tokens : List Token) (read node : Node) : Prop where
  derives : Derives tokens read
  same : read.spanless = node.spanless
  fits : ∀ outer, outer + node.depth ≤ maxDepth → Fits outer tokens

section Reading

variable {spell : String → List Char} {tokens : List Token}

/-- A literal with the right tree takes as much room as that tree is deep. -/
theorem Derives.rebuilds {read node : Node} (h : Derives tokens read)
    (hsame : read.spanless = node.spanless) : Rebuilds tokens read node :=
  ⟨h, hsame, fun _ houter => h.fits (depth_eq_of_spanless hsame ▸ houter)⟩

theorem exists_items {items : List Node}
    (hitems : ∀ item ∈ items, ∀ tokens : List Token,
      tokens.map Token.lexeme = item.lexemes spell → ∃ read, Rebuilds tokens read item)
    (htokens : tokens.map Token.lexeme = lexemesOfItems spell items) :
    ∃ parts : List (List Token × Node), tokens = parts.flatMap Prod.fst ∧
      (∀ part ∈ parts, Derives part.1 part.2) ∧
      (parts.map Prod.snd).map Node.spanless = items.map Node.spanless := by
  induction items generalizing tokens with
  | nil =>
    obtain rfl := List.map_eq_nil_iff.mp htokens
    exact ⟨[], rfl, by simp, rfl⟩
  | cons item rest ih =>
    obtain ⟨hitem, hrest⟩ := List.forall_mem_cons.mp hitems
    rw [lexemesOfItems] at htokens
    obtain ⟨first, others, rfl, hfirst, hothers⟩ := List.map_eq_append_iff.mp htokens
    obtain ⟨read, hread⟩ := hitem first hfirst
    obtain ⟨parts, rfl, hderives, hsame⟩ := ih hrest hothers
    refine ⟨(first, read) :: parts, rfl, List.forall_mem_cons.mpr ⟨hread.derives, hderives⟩, ?_⟩
    simp only [List.map_cons, hread.same, hsame]

theorem exists_fieldParts {fields : List Field}
    (hvalues : ∀ field ∈ fields, ∀ tokens : List Token,
      tokens.map Token.lexeme = field.value.lexemes spell →
        ∃ read, Rebuilds tokens read field.value)
    (htokens : tokens.map Token.lexeme = lexemesOfFields spell fields) :
    ∃ parts : List FieldPart, tokens = parts.flatMap FieldPart.word ∧
      (∀ part ∈ parts, part.name.kind = .name) ∧ (∀ part ∈ parts, part.colon.kind = .colon) ∧
      (∀ part ∈ parts, Derives part.tokens part.value) ∧
      (parts.map FieldPart.field).map Field.spanless = fields.map Field.spanless := by
  induction fields generalizing tokens with
  | nil =>
    obtain rfl := List.map_eq_nil_iff.mp htokens
    exact ⟨[], rfl, by simp, by simp, by simp, rfl⟩
  | cons field rest ih =>
    obtain ⟨hvalue, hrest⟩ := List.forall_mem_cons.mp hvalues
    rw [lexemesOfFields_cons] at htokens
    obtain ⟨name, tokens, rfl, hname, htokens⟩ := List.map_eq_cons_iff.mp htokens
    obtain ⟨colon, tokens, rfl, hcolon, htokens⟩ := List.map_eq_cons_iff.mp htokens
    obtain ⟨first, others, rfl, hfirst, hothers⟩ := List.map_eq_append_iff.mp htokens
    obtain ⟨read, hread⟩ := hvalue first hfirst
    obtain ⟨parts, rfl, hnames, hcolons, hderives, hsame⟩ := ih hrest hothers
    let part : FieldPart := ⟨name, colon, first, read⟩
    have hnameKind : name.kind = .name := congrArg Lexeme.kind hname
    have hnameText : name.text = field.name.text.toList := congrArg Lexeme.text hname
    have hcolonKind : colon.kind = .colon := congrArg Lexeme.kind hcolon
    refine ⟨part :: parts, rfl, List.forall_mem_cons.mpr ⟨hnameKind, hnames⟩,
      List.forall_mem_cons.mpr ⟨hcolonKind, hcolons⟩,
      List.forall_mem_cons.mpr ⟨hread.derives, hderives⟩, ?_⟩
    have hfield : part.field.spanless = field.spanless := by
      simp only [part, FieldPart.field, Field.spanless, hnameText, String.ofList_toList,
        hread.same]
    rw [List.map_cons, List.map_cons, List.map_cons, hfield, hsame]

theorem exists_bracketed {before after : Lexeme} {lexemes : List Lexeme}
    (htokens : tokens.map Token.lexeme = before :: (lexemes ++ [after])) :
    ∃ opening inner closing, tokens = opening :: (inner ++ [closing]) ∧
      opening.kind = before.kind ∧ inner.map Token.lexeme = lexemes ∧
        closing.kind = after.kind := by
  obtain ⟨opening, rest, rfl, rfl, hrest⟩ := List.map_eq_cons_iff.mp htokens
  obtain ⟨inner, ending, rfl, hinner, hending⟩ := List.map_eq_append_iff.mp hrest
  obtain ⟨closing, rfl, rfl⟩ := List.map_eq_singleton_iff.mp hending
  exact ⟨opening, inner, closing, rfl, rfl, hinner, rfl⟩

/-- A literal of one token is read back from it. -/
theorem exists_rebuilds_of_says {lexeme : Lexeme} {value : Value} {span : Span}
    (hmeaning : ∀ span, Says ⟨lexeme.kind, span, lexeme.text⟩ value)
    (htokens : tokens.map Token.lexeme = [lexeme]) :
    ∃ read, Rebuilds tokens read ⟨value, span⟩ := by
  obtain ⟨token, rfl, rfl⟩ := List.map_eq_singleton_iff.mp htokens
  have hmeaning : Says token value := hmeaning token.span
  exact ⟨_, (Derives.single hmeaning).rebuilds (by rw [Node.spanless, Node.spanless])⟩

/-- **The tokens of a tree are a literal with that tree.** -/
theorem Node.IsWritable.rebuilds (hspell : ∀ contents, Quotes (spell contents) contents.toList)
    {node : Node} (h : node.IsWritable) (htokens : tokens.map Token.lexeme = node.lexemes spell) :
    ∃ read, Rebuilds tokens read node := by
  induction h generalizing tokens with
  | null => exact exists_rebuilds_of_says (fun _ => .null) htokens
  | @boolean value =>
    cases value with
    | true => exact exists_rebuilds_of_says (fun _ => .true) htokens
    | false => exact exists_rebuilds_of_says (fun _ => .false) htokens
  | int =>
    refine exists_rebuilds_of_says (fun _ => ?_) htokens
    rw [String.toList_ofList]
    exact .int
  | float =>
    refine exists_rebuilds_of_says (fun _ => ?_) htokens
    rw [String.toList_ofList]
    exact .float
  | @string contents =>
    refine exists_rebuilds_of_says (fun _ => ?_) htokens
    -- The quotes around the spelling are dropped.
    rw [← String.ofList_toList (s := contents)]
    refine .string ?_
    simpa using (hspell contents).spells
  | @enum name _ hname =>
    refine exists_rebuilds_of_says (fun span => ?_) htokens
    simp only [Text.isBareName, Bool.and_eq_true, decide_eq_true_eq] at hname
    obtain ⟨⟨⟨-, hnull⟩, htrue⟩, hfalse⟩ := hname
    have hne : ∀ {other : String}, name ≠ other → name.toList ≠ other.toList :=
      fun h heq => h (String.toList_injective heq)
    have hmeaning : Says ⟨.name, span, name.toList⟩ (.enum (String.ofList name.toList)) :=
      .enum (hne htrue) (hne hfalse) (hne hnull)
    rwa [String.ofList_toList] at hmeaning
  | @list items span _ ih =>
    rw [lexemes, Value.lexemes] at htokens
    obtain ⟨opening, inner, closing, rfl, hopening, hinner, hclosing⟩ := exists_bracketed htokens
    obtain ⟨parts, rfl, hderives, hsame⟩ :=
      exists_items (fun item hmem _ => ih item hmem) hinner
    refine ⟨_, (Derives.list hopening hclosing hderives).rebuilds ?_⟩
    simp only [spanless, Value.spanless, spanlessItems_eq_map, hsame]
  | @object fields span hnames _ ih =>
    rw [lexemes, Value.lexemes] at htokens
    obtain ⟨opening, inner, closing, rfl, hopening, hinner, hclosing⟩ := exists_bracketed htokens
    obtain ⟨parts, rfl, hnames, hcolons, hderives, hsame⟩ :=
      exists_fieldParts (fun field hmem _ => ih field hmem) hinner
    refine ⟨_, (Derives.object hopening hclosing hnames hcolons hderives).rebuilds ?_⟩
    simp only [spanless, Value.spanless, spanlessFields_eq_map, hsame]

/-- **What is written is read back, in any layout.** A tree that can be written, with no more than
`maxDepth` lists and objects open at any point, is written token by token, and its strings are
spelled in any way. Whatever stands between the tokens, as long as it keeps two words apart, the
text is read as the tree, apart from its positions. -/
theorem parse_layOut (hspell : ∀ contents, Quotes (spell contents) contents.toList) {node : Node}
    (hnode : node.IsWritable) (hdepth : node.depth ≤ maxDepth) {pieces : List Piece}
    {last : List Char} (hpieces : pieces.map Piece.lexeme = node.lexemes spell)
    (hlayout : IsLayout pieces last) :
    ∃ read, parse (String.ofList (layOut pieces last)) = .ok read ∧
      read.spanless = node.spanless := by
  have hproper : ∀ piece ∈ pieces, piece.lexeme.IsProper := by
    have := hnode.isProper hspell
    rw [← hpieces] at this
    exact fun piece hmem => this _ (List.mem_map_of_mem hmem)
  obtain ⟨tokens, hlexed, htokens⟩ := exists_lexed_layOut 0 hproper hlayout
  obtain ⟨read, hread⟩ := hnode.rebuilds hspell (htokens.trans hpieces)
  refine ⟨read, parse_eq_ok_iff.mpr ⟨tokens, ?_, hread.derives, ?_⟩, hread.same⟩
  · rw [tokenize, String.toList_ofList]
    exact tokenizeFrom_eq_ok_iff.mpr hlexed
  · exact shallow_iff_fits.mpr (hread.fits 0 (by omega))

end Reading

theorem parse_layOut_nested : ∃ read,
    parse (String.ofList (layOut
      [⟨[' '], ⟨.bracketOpen, ['[']⟩⟩,
        ⟨[], ⟨.string, ['"', 'é', '\\', '"', '\\', 'n', '"']⟩⟩,
        ⟨['#', ']', '\n', ','], ⟨.float, ['-', '2', '.', '5', 'e', '3']⟩⟩,
        ⟨['\t'], ⟨.name, ['o', 'n']⟩⟩,
        ⟨[], ⟨.braceOpen, ['\x7b']⟩⟩, ⟨[], ⟨.name, ['n', 'u', 'l', 'l']⟩⟩, ⟨[' '], ⟨.colon, [':']⟩⟩,
        ⟨[], ⟨.int, ['0']⟩⟩, ⟨[','], ⟨.braceClose, ['\x7d']⟩⟩,
        ⟨[], ⟨.bracketClose, [']']⟩⟩]
      ['\r', '\n'])) = .ok read ∧
    read.spanless =
      ⟨.list [⟨.string "é\"\n", default⟩, ⟨.float "-2.5e3", default⟩, ⟨.enum "on", default⟩,
        ⟨.object [⟨⟨"null", default⟩, ⟨.int "0", default⟩, default⟩], default⟩], default⟩ := by
  have hfloat : Numeral.IsProper ⟨true, ['2'], ['5'], some ⟨'e', none, ['3']⟩⟩ := by
    refine ⟨.inr ⟨'2', [], rfl, by simp, by simp⟩, by simp, ?_⟩
    rintro e ⟨⟩
    exact ⟨.inl rfl, by simp, by simp, by simp⟩
  have hint : Numeral.IsProper ⟨false, ['0'], [], none⟩ := ⟨.inl rfl, by simp, by simp⟩
  have hwritable : Node.IsWritable
      ⟨.list [⟨.string "é\"\n", default⟩, ⟨.float "-2.5e3", default⟩, ⟨.enum "on", default⟩,
        ⟨.object [⟨⟨"null", default⟩, ⟨.int "0", default⟩, default⟩], default⟩], default⟩ := by
    have hnumber : Node.IsWritable ⟨.float (String.ofList _), default⟩ := .float hfloat rfl
    have hzero : Node.IsWritable ⟨.int (String.ofList _), default⟩ := .int hint rfl
    refine .list ?_
    simp only [List.forall_mem_cons]
    refine ⟨.string, hnumber, .enum (by decide), .object ?_ ?_, by simp⟩
    · simp only [List.forall_mem_singleton]
      decide
    · simp only [List.forall_mem_singleton]
      exact hzero
  refine parse_layOut (fun contents => quotes_escaped contents.toList) hwritable (by decide)
    (by cbv) ⟨?_, .char rfl (.char rfl .nil), ?_⟩
  · have hcomment : Ignorable ('#' :: ([']'] ++ '\n' :: [','])) :=
      .comment (by decide) (.char rfl .nil)
    simp only [List.forall_mem_cons]
    exact ⟨.char rfl .nil, .nil, hcomment, .char rfl .nil, .nil, .nil, .char rfl .nil, .nil,
      .char rfl .nil, .nil, by simp⟩
  · simp [TokenKind.isMark]

end TaggedUnion.Literal
