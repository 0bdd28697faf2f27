import LiveMarkup.Proofs.Expr.Whole

/-!
# The grammar of expressions

A phrase is a row of tokens with the expression that it stands for.  It may be written as freely as
the reader allows: a comma may stand behind the last item of a list, a key may be a number, and a
name alone is an entry of an object.  Every phrase is read as its expression, whatever comes behind
it, unless that continues it.
-/

namespace LiveMarkup

open LiveMarkup.Parser (Item Takes Anything Follows headPunct binds joins? follows_free)

/-- What a token says as the key of an entry, if it can be one. -/
def Token.key? : Token → Option String
  | .ident name => some name
  | .string text => some text
  | .number value => some (displayNumber value)
  | .punct _ => none

namespace Expr

/-! ## Phrases -/

/-- Items one after another with commas between them; a comma may stand behind the last one. -/
inductive Listed {α : Type} : List (Item α) → List Token → Prop
  /-- No items. -/
  | nil : Listed [] []
  /-- An item without a comma behind it is the last one. -/
  | last (item : Item α) : Listed [item] item.2
  /-- Behind a comma the others follow, if there are any. -/
  | cons (item : Item α) {items : List (Item α)} {row : List Token} (others : Listed items row) :
      Listed (item :: items) (item.2 ++ .punct .comma :: row)

/-- What may stand in an object. -/
inductive Field where
  /-- A name alone is the key and names the value. -/
  | alone (name : String)
  /-- A key, a colon and a value. -/
  | keyed (token : Token) (key : String) (keys : token.key? = some key) (value : Expr)
      (row : List Token)

/-- The entry that a field makes, and its tokens. -/
def Field.item : Field → Item (String × Expr)
  | alone name => ((name, .ident name), [.ident name])
  | keyed token key _ value row => ((key, value), token :: .punct .colon :: row)

/-- Whether a row of tokens stands for an expression where the expression may be as loose as a
level: 0 for names, literals, members and calls, 1 for updates behind their target, 2 for operators
before their operand, 3 to 8 for operators between operands, and 9 for all others. -/
inductive Phrase : Nat → Expr → List Token → Prop
  /-- A number. -/
  | number (level : Nat) (value : Float) : Phrase level (.literal (.number value)) [.number value]
  /-- A string. -/
  | string (level : Nat) (text : String) : Phrase level (.literal (.string text)) [.string text]
  /-- A name stands for a variable or for the constant of that name. -/
  | name (level : Nat) (name : String) : Phrase level (Parser.named name) [.ident name]
  /-- Any phrase in parentheses. -/
  | parens (level : Nat) {expr : Expr} {row : List Token} (inner : Phrase 9 expr row) :
      Phrase level expr (.punct .leftParen :: (row ++ [.punct .rightParen]))
  /-- An array. -/
  | array (level : Nat) {items : List (Item Expr)} {row : List Token} (listed : Listed items row)
      (each : ∀ item ∈ items, Phrase 9 item.1 item.2) :
      Phrase level (.array (items.map Prod.fst))
        (.punct .leftBracket :: (row ++ [.punct .rightBracket]))
  /-- An object. -/
  | object (level : Nat) {fields : List Field} {row : List Token}
      (listed : Listed (fields.map Field.item) row)
      (each : ∀ token key keys value row, .keyed token key keys value row ∈ fields →
        Phrase 9 value row) :
      Phrase level (.object ((fields.map Field.item).map Prod.fst))
        (.punct .leftBrace :: (row ++ [.punct .rightBrace]))
  /-- A property with a name. -/
  | member (level : Nat) {object : Expr} {row : List Token} (inner : Phrase 0 object row)
      (property : String) :
      Phrase level (.member object property) (row ++ [.punct .dot, .ident property])
  /-- A property that is computed. -/
  | index (level : Nat) {object place : Expr} {row placeRow : List Token}
      (inner : Phrase 0 object row) (at_ : Phrase 9 place placeRow) :
      Phrase level (.index object place)
        (row ++ .punct .leftBracket :: (placeRow ++ [.punct .rightBracket]))
  /-- A call. -/
  | call (level : Nat) {callee : Expr} {row argsRow : List Token} {args : List (Item Expr)}
      (inner : Phrase 0 callee row) (listed : Listed args argsRow)
      (each : ∀ arg ∈ args, Phrase 9 arg.1 arg.2) :
      Phrase level (.call callee (args.map Prod.fst))
        (row ++ .punct .leftParen :: (argsRow ++ [.punct .rightParen]))
  /-- An update behind its target. -/
  | updateAfter {level : Nat} (loose : 1 ≤ level) (step : Step) {target : Expr}
      (assignable : target.isAssignable = true) {row : List Token} (inner : Phrase 0 target row) :
      Phrase level (.update step false target) (row ++ [.punct step.punct])
  /-- An update before its target. -/
  | updateBefore {level : Nat} (loose : 2 ≤ level) (step : Step) {target : Expr}
      (assignable : target.isAssignable = true) {row : List Token} (inner : Phrase 2 target row) :
      Phrase level (.update step true target) (.punct step.punct :: row)
  /-- An operator before its operand. -/
  | unary {level : Nat} (loose : 2 ≤ level) (op : UnaryOp) {operand : Expr} {row : List Token}
      (inner : Phrase 2 operand row) : Phrase level (.unary op operand) (.punct op.punct :: row)
  /-- An operator between its operands; it associates to the left. -/
  | join {level n : Nat} {p : Punct} {join : Expr → Expr → Expr}
      (found : joins? (n + 3) p = some join) (loose : n + 3 ≤ level) {left right : Expr}
      {first second : List Token} (leftPhrase : Phrase (n + 3) left first)
      (rightPhrase : Phrase (n + 2) right second) :
      Phrase level (join left right) (first ++ .punct p :: second)
  /-- A choice; it associates to the right. -/
  | conditional {test consequent alternate : Expr} {first second third : List Token}
      (testPhrase : Phrase 8 test first) (consequentPhrase : Phrase 9 consequent second)
      (alternatePhrase : Phrase 9 alternate third) :
      Phrase 9 (.conditional test consequent alternate)
        (first ++ .punct .question :: (second ++ .punct .colon :: third))
  /-- An assignment; it associates to the right. -/
  | assign {op : AssignOp} {p : Punct} (found : Parser.assignOp? p = some op) {target value : Expr}
      (assignable : target.isAssignable = true) {first second : List Token}
      (targetPhrase : Phrase 8 target first) (valuePhrase : Phrase 9 value second) :
      Phrase 9 (.assign op target value) (first ++ .punct p :: second)
  /-- An arrow function.  Its parameters are no names of constants. -/
  | arrow {params : List String} {head : List Token} (written : Head params head)
      (valid : ∀ param ∈ params, Parser.isKeyword param = false) {body : Expr} {row : List Token}
      (inner : Phrase 9 body row) : Phrase 9 (.arrow params body) (head ++ row)

variable {level other : Nat} {expr : Expr} {row : List Token}

/-- What may be tight may be loose. -/
theorem Phrase.loosen (phrase : Phrase level expr row) (le : level ≤ other) (bound : other ≤ 9) :
    Phrase other expr row := by
  cases phrase with
  | number _ value => exact .number other value
  | string _ text => exact .string other text
  | name _ name => exact .name other name
  | parens _ inner => exact .parens other inner
  | array _ listed each => exact .array other listed each
  | object _ listed each => exact .object other listed each
  | member _ inner property => exact .member other inner property
  | index _ inner at_ => exact .index other inner at_
  | call _ inner listed each => exact .call other inner listed each
  | updateAfter loose step assignable inner =>
      exact .updateAfter (Nat.le_trans loose le) step assignable inner
  | updateBefore loose step assignable inner =>
      exact .updateBefore (Nat.le_trans loose le) step assignable inner
  | unary loose op inner => exact .unary (Nat.le_trans loose le) op inner
  | join found loose leftPhrase rightPhrase =>
      exact .join found (Nat.le_trans loose le) leftPhrase rightPhrase
  | conditional testPhrase consequentPhrase alternatePhrase =>
      obtain rfl := Nat.le_antisymm bound le
      exact .conditional testPhrase consequentPhrase alternatePhrase
  | assign found assignable targetPhrase valuePhrase =>
      obtain rfl := Nat.le_antisymm bound le
      exact .assign found assignable targetPhrase valuePhrase
  | arrow written valid inner =>
      obtain rfl := Nat.le_antisymm bound le
      exact .arrow written valid inner

/-! ## How phrases begin -/

/-- An operator between operands is no separator, and its level is one of six. -/
theorem joins?_spec {n : Nat} {p : Punct} {join : Expr → Expr → Expr}
    (found : joins? (n + 3) p = some join) :
    n ≤ 5 ∧ p ≠ .comma ∧ p ≠ .rightParen ∧ p ≠ .arrow := by
  have level : n ≤ 5 := by
    by_contra loose
    obtain ⟨more, rfl⟩ := Nat.exists_eq_add_of_le' (Nat.not_le.mp loose)
    contradiction
  have bound := Parser.binds_of_joins? found
  refine ⟨level, ?_, ?_, ?_⟩
  · rintro rfl
    contradiction
  · rintro rfl
    contradiction
  · rintro rfl
    have nine : 9 = n + 3 := Option.some.inj bound
    omega

theorem Head.front {params : List String} {head : List Token} (written : Head params head) :
    Front 9 (head ++ row) := by
  cases written with
  | single param =>
      constructor
      case filled => simp
      case opens => simp [headPunct]
      case plain => omega
      case name =>
        intro name token rest same
        obtain ⟨-, rfl, -⟩ : _ ∧ Token.punct .arrow = token ∧ _ := by simpa using same
        simp
      case noHead => omega
  | several params =>
      constructor
      case filled => simp
      case opens => exact fun _ same => Option.some.inj same ▸ rfl
      case plain => omega
      case name => simp
      case noHead => omega

theorem Phrase.front (phrase : Phrase level expr row) : Front level row := by
  induction phrase with
  | number level value => exact front_of_token fun p => by simp
  | string level text => exact front_of_token fun p => by simp
  | name level name => exact front_of_token fun p => by simp
  | parens level inner front => exact front_of_parens front
  | array level listed each front => exact front_of_punct rfl (fun _ => rfl) (by decide) _
  | object level listed each front => exact front_of_punct rfl (fun _ => rfl) (by decide) _
  | member level inner property front => exact front.extend (by simp) (by simp) (by decide) _
  | index level inner at_ front => exact front.extend (by simp) (by simp) (by decide) _
  | call level inner listed each front => exact front.extend (by simp) (by simp) (by decide) _
  | updateAfter loose step assignable inner front =>
      exact front.extend (by simp) (by simp) (by cases step <;> decide) _
  | updateBefore loose step assignable inner front =>
      cases step <;> exact front_of_punct rfl (by omega) (by decide) _
  | unary loose op inner front =>
      cases op <;> exact front_of_punct rfl (by omega) (by decide) _
  | join found loose leftPhrase rightPhrase front second =>
      obtain ⟨tight, other⟩ := joins?_spec found
      exact front.extend (by omega) (by omega) other _
  | conditional testPhrase consequentPhrase alternatePhrase front second third =>
      exact front.extend (by simp) (by simp) (by decide) _
  | @assign op p found _ _ _ _ _ targetPhrase valuePhrase front second =>
      have other : p ≠ .comma ∧ p ≠ .rightParen ∧ p ≠ .arrow := by
        refine ⟨?_, ?_, ?_⟩ <;> rintro rfl <;> simp [Parser.assignOp?] at found
      exact front.extend (by simp) (by simp) other _
  | arrow written valid inner front => exact written.front

/-! ## Phrases are read -/

/-- Items are taken one after another up to the closing token.  An item does not begin with that
token, and it ends before a comma and before the closing token. -/
theorem takes_listed {α : Type} {close : Punct} {item : Parser α} {ends : List Token → Prop}
    (comma : ∀ rest, ends (.punct .comma :: rest)) (closes : ∀ rest, ends (.punct close :: rest))
    (differs : close ≠ .comma) {items : List (Item α)} (listed : Listed items row)
    (each : ∀ entry ∈ items, Takes item entry.2 entry.1 ends)
    (begins : ∀ entry ∈ items, ∀ rest, headPunct (entry.2 ++ rest) ≠ some close) {fuel : Nat}
    (enough : items.length ≤ fuel) :
    Takes (Parser.listItems close item (fuel + 1)) (row ++ [.punct close]) (items.map Prod.fst)
      Anything := by
  induction listed generalizing fuel with
  | nil =>
      rw [Parser.listItems]
      exact .eat (.pure [])
  | last entry =>
      have first := each entry List.mem_cons_self
      have skips := begins entry List.mem_cons_self
      rw [Parser.listItems]
      apply Takes.skip
      · intro rest _
        rw [List.append_assoc]
        exact skips _
      apply first.bind
      · apply Takes.skip
        · intro rest _
          simp [headPunct, differs]
        exact .expect _ (.pure [entry.1])
      · exact fun rest _ => closes rest
  | cons entry others ih =>
      rw [List.forall_mem_cons] at each begins
      have skips : ∀ rest, headPunct (entry.2 ++ rest) ≠ some close := begins.1
      obtain ⟨fuel, rfl⟩ :=
        Nat.exists_eq_add_of_le' (Nat.le_trans (Nat.le_add_left 1 _) enough)
      rw [Parser.listItems, List.append_assoc]
      apply Takes.skip
      · intro rest _
        rw [List.append_assoc]
        exact skips _
      apply each.1.bind
      · apply Takes.eat
        apply Takes.yield
        exact ih each.2 begins.2 (Nat.le_of_succ_le_succ enough)
      · exact fun rest _ => comma _

theorem Listed.length_le {α : Type} {items : List (Item α)} (listed : Listed items row)
    (filled : ∀ item ∈ items, item.2 ≠ []) : items.length ≤ row.length := by
  induction listed with
  | nil => exact Nat.le_refl _
  | last item => exact List.length_pos_iff.mpr (filled item List.mem_cons_self)
  | cons item others ih =>
      rw [List.forall_mem_cons] at filled
      have more := ih filled.2
      simp only [List.length_cons, List.length_append]
      omega

theorem Listed.length_item_le {α : Type} {items : List (Item α)} (listed : Listed items row)
    {item : Item α} (member : item ∈ items) : item.2.length ≤ row.length := by
  induction listed with
  | nil => cases member
  | last other =>
      obtain rfl := List.mem_singleton.mp member
      exact Nat.le_refl _
  | cons other others ih =>
      simp only [List.length_append, List.length_cons]
      rcases List.mem_cons.mp member with rfl | later
      · omega
      · have short := ih later
        omega

/-- A list takes its items and the closing token. -/
theorem takes_list_of_listed {α : Type} {close : Punct} {item : Parser α}
    {ends : List Token → Prop} (comma : ∀ rest, ends (.punct .comma :: rest))
    (closes : ∀ rest, ends (.punct close :: rest)) (differs : close ≠ .comma)
    {items : List (Item α)} (listed : Listed items row) (filled : ∀ entry ∈ items, entry.2 ≠ [])
    (each : ∀ entry ∈ items, Takes item entry.2 entry.1 ends)
    (begins : ∀ entry ∈ items, ∀ p, headPunct entry.2 = some p → p ≠ close) :
    Takes (Parser.list close item) (row ++ [.punct close]) (items.map Prod.fst) Anything := by
  apply Takes.remaining
  intro count enough
  have short := listed.length_le filled
  rw [List.length_append] at enough
  apply takes_listed comma closes differs listed each
  · intro entry member rest same
    rw [headPunct_append (filled entry member)] at same
    exact begins entry member close same rfl
  · omega

/-- A phrase does not begin with a closing token. -/
theorem Phrase.ne_close (phrase : Phrase level expr row) {close : Punct}
    (closes : close.closes = true) : ∀ p, headPunct row = some p → p ≠ close := by
  rintro p same rfl
  rw [phrase.front.opens p same] at closes
  contradiction

/-- Phrases between commas are read as a list. -/
theorem takes_phrases {depth : Nat} {close : Punct} (closes : close.closes = true)
    (closing : binds close = none) (differs : close ≠ .comma) {items : List (Item Expr)}
    (listed : Listed items row) (each : ∀ item ∈ items, Phrase 9 item.1 item.2)
    (reads : ∀ item ∈ items, Reads 9 item.1 item.2) (room : row.length ≤ depth) :
    Takes (Parser.list close (Parser.assignment depth)) (row ++ [.punct close])
      (items.map Prod.fst) Anything := by
  apply takes_list_of_listed (fun rest => follows_free rfl rest)
    (fun rest => follows_free closing rest) differs listed
  · exact fun item member => (each item member).front.filled
  · intro item member
    exact (reads item member).whole depth (Nat.le_trans (listed.length_item_le member) room)
  · exact fun item member => (each item member).ne_close closes

theorem Field.filled (field : Field) : field.item.2 ≠ [] := by
  cases field <;> simp [Field.item]

theorem Field.ne_close (field : Field) (close : Punct) :
    ∀ p, headPunct field.item.2 = some p → p ≠ close := by
  intro p same
  cases field with
  | alone name => simp [Field.item, headPunct] at same
  | keyed token key keys value row =>
      cases token with
      | punct q => simp [Token.key?] at keys
      | _ => simp [Field.item, headPunct] at same

/-- Behind a field there is neither anything that continues its value nor a colon. -/
def FieldEnds (rest : List Token) : Prop := Follows 9 rest ∧ headPunct rest ≠ some .colon

/-- A field is read as the entry that it makes. -/
theorem Field.takes {whole : Parser Expr} (field : Field)
    (value : ∀ token key keys value row, field = .keyed token key keys value row →
      Takes whole row value (Follows 9)) :
    Takes (Parser.property whole) field.item.2 field.item.1 FieldEnds := by
  cases field with
  | alone name =>
      apply Takes.next
      intro offset
      apply Takes.skip
      · exact fun rest ends => ends.2
      · exact .pure (name, Expr.ident name)
  | keyed token key keys expr row =>
      apply Takes.next
      intro offset
      have takes := (value token key keys expr row rfl).weaken
        fun (rest : List Token) (ends : FieldEnds rest) => ends.1
      cases token with
      | ident name =>
          obtain rfl : name = key := by simpa [Token.key?] using keys
          exact .eat takes.yield
      | string text =>
          obtain rfl : text = key := by simpa [Token.key?] using keys
          exact .expect _ takes.yield
      | number number =>
          obtain rfl : displayNumber number = key := by simpa [Token.key?] using keys
          exact .expect _ takes.yield
      | punct p => simp [Token.key?] at keys

/-- Fields between commas are read as the entries of an object. -/
theorem takes_fields {depth : Nat} {fields : List Field}
    (listed : Listed (fields.map Field.item) row)
    (reads : ∀ token key keys value row, .keyed token key keys value row ∈ fields →
      Reads 9 value row) (room : row.length ≤ depth) :
    Takes (Parser.list .rightBrace (Parser.property (Parser.assignment depth)))
      (row ++ [.punct .rightBrace]) ((fields.map Field.item).map Prod.fst) Anything := by
  have comma : ∀ rest, FieldEnds (.punct .comma :: rest) :=
    fun rest => ⟨follows_free rfl rest, by simp [headPunct]⟩
  have closes : ∀ rest, FieldEnds (.punct .rightBrace :: rest) :=
    fun rest => ⟨follows_free rfl rest, by simp [headPunct]⟩
  apply takes_list_of_listed comma closes (by decide) listed
  · exact List.forall_mem_map.mpr fun field _ => field.filled
  · refine List.forall_mem_map.mpr fun field member => field.takes ?_
    rintro token key keys value inner rfl
    have short := listed.length_item_le (List.mem_map_of_mem member)
    simp only [Field.item, List.length_cons] at short
    exact (reads token key keys value inner member).whole depth (by omega)
  · exact List.forall_mem_map.mpr fun field _ => field.ne_close .rightBrace

/-- Every phrase is read as its expression. -/
theorem Phrase.reads (phrase : Phrase level expr row) : Reads level expr row := by
  induction phrase with
  | number level value =>
      apply reads_of_primary (Phrase.number 0 value).front
      exact fun depth _ => Takes.next fun offset => .pure (Expr.literal (.number value))
  | string level text =>
      apply reads_of_primary (Phrase.string 0 text).front
      exact fun depth _ => Takes.next fun offset => .pure (Expr.literal (.string text))
  | name level name =>
      apply reads_of_primary (Phrase.name 0 name).front
      exact fun depth _ => Takes.next fun offset => .pure (Parser.named name)
  | parens level inner ih =>
      apply reads_of_primary (Phrase.parens 0 inner).front
      intro depth room
      simp only [List.length_cons, List.length_append] at room
      apply Takes.next
      intro offset
      apply (ih.whole depth (by omega)).bind
      · exact .expect _ (.pure _)
      · exact fun rest _ => follows_free rfl _
  | array level listed each ih =>
      apply reads_of_primary (Phrase.array 0 listed each).front
      intro depth room
      simp only [List.length_cons, List.length_append] at room
      apply Takes.next
      intro offset
      apply Takes.yield
      exact takes_phrases rfl rfl (by decide) listed each ih (by omega)
  | object level listed each ih =>
      apply reads_of_primary (Phrase.object 0 listed each).front
      intro depth room
      simp only [List.length_cons, List.length_append] at room
      apply Takes.next
      intro offset
      apply Takes.yield
      exact takes_fields listed ih (by omega)
  | member level inner property ih =>
      apply reads_of_opens (Phrase.member 0 inner property).front (by simp) (Nat.zero_le _)
      intro depth room
      rw [List.length_append] at room
      exact Parser.opens_member (ih.own (by simp) depth (by omega)) property
  | index level inner at_ ih ihAt =>
      apply reads_of_opens (Phrase.index 0 inner at_).front (by simp) (Nat.zero_le _)
      intro depth room
      simp only [List.length_cons, List.length_append] at room
      apply Parser.opens_index
      · exact ih.own (by simp) depth (by omega)
      · exact ihAt.whole depth (by omega)
  | call level inner listed each ih ihEach =>
      apply reads_of_opens (Phrase.call 0 inner listed each).front (by simp) (Nat.zero_le _)
      intro depth room
      simp only [List.length_cons, List.length_append] at room
      apply Parser.opens_call
      · exact ih.own (by simp) depth (by omega)
      · exact takes_phrases rfl rfl (by decide) listed each ihEach (by omega)
  | updateAfter loose step assignable inner ih =>
      apply reads_of_opens (Phrase.updateAfter (Nat.le_refl _) step assignable inner).front
        (by simp) loose
      intro depth room
      rw [List.length_append] at room
      exact Parser.takes_updateAfter (ih.own (by simp) depth (by omega)) assignable step
  | updateBefore loose step assignable inner ih =>
      apply reads_of_opens (Phrase.updateBefore (Nat.le_refl _) step assignable inner).front
        (by simp) loose
      intro depth room
      rw [List.length_cons] at room
      exact Parser.opens_updateBefore (ih.own (by simp) depth (by omega)) assignable step
  | unary loose op inner ih =>
      apply reads_of_opens (Phrase.unary (Nat.le_refl _) op inner).front (by simp) loose
      intro depth room
      rw [List.length_cons] at room
      exact Parser.opens_unary (ih.own (by simp) depth (by omega)) op
  | join found loose leftPhrase rightPhrase ihLeft ihRight =>
      have front := (Phrase.join found (Nat.le_refl _) leftPhrase rightPhrase).front
      exact reads_of_join found front (joins?_spec found).1 loose ihLeft ihRight
  | conditional testPhrase consequentPhrase alternatePhrase ih ihThen ihElse =>
      apply reads_of_whole
      intro depth room
      simp only [List.length_append, List.length_cons] at room
      -- what nests is shorter by a token and gets a bound that is smaller by one
      obtain ⟨depth, rfl⟩ := Nat.exists_eq_add_of_le' (by omega : 1 ≤ depth)
      apply Parser.takes_assignment
      · exact Parser.takes_choice (ih.own (Nat.le_refl _) depth (by omega))
          (ihThen.whole depth (by omega)) (ihElse.whole depth (by omega))
      · -- behind the test is a question mark, so it is no head of an arrow function
        intro rest _
        rw [List.append_assoc]
        exact testPhrase.front.noHead (Nat.le_refl _) _ (by simp [headPunct])
  | assign found assignable targetPhrase valuePhrase ihTarget ihValue =>
      apply reads_of_whole
      intro depth room
      simp only [List.length_append, List.length_cons] at room
      obtain ⟨depth, rfl⟩ := Nat.exists_eq_add_of_le' (by omega : 1 ≤ depth)
      exact Parser.takes_assign found assignable (ihTarget.own (Nat.le_refl _) depth (by omega))
        (ihValue.whole depth (by omega)) (targetPhrase.front.noHead (Nat.le_refl _))
  | arrow written valid inner ih =>
      apply reads_of_whole
      intro depth room
      have some := written.length_pos
      rw [List.length_append] at room
      obtain ⟨depth, rfl⟩ := Nat.exists_eq_add_of_le' (by omega : 1 ≤ depth)
      rw [Parser.assignment]
      exact Takes.head written valid (ih.whole depth (by omega)).yield

end Expr

end LiveMarkup
