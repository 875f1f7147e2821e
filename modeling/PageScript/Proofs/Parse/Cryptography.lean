import PageScript.Proofs.Parse.Acceptance

/-! Cryptographic statements. Their rules join up to seventeen tokens and pick
literals from among them by place. Main statement: a script of such statements
is parsed to declarations of their names, in order. Encryption, decryption and
verification carry the literals that are written; hashing carries a colon for
its data, and signing one for its data and one for its key. Hashing begins with
the element mark: where a word stands for it, the script is refused. -/
namespace PageScript

/-! ### Statements in writing -/

/-- What the literals of cryptographic statements are for. -/
inductive CryptoField where
  | signature | data | key | algorithm
  deriving DecidableEq

namespace CryptoField

/-- The words that stand before the colon. -/
def label : CryptoField → List (String × Terminal)
  | signature => [("signature", .signature)]
  | data => [("data", .data)]
  | key => [("with", .withWord), ("key", .key)]
  | algorithm => [("algorithm", .algorithm)]

def contents (field : CryptoField) (literal : String) : List (Terminal × Value) :=
  field.label.map (fun word => (word.2, .text word.1)) ++
    [(.colon, .text ":"), (.text, .text literal)]

/-- The field in writing, behind a blank. -/
def text (field : CryptoField) (literal : String) : String :=
  String.join (field.label.map fun word => " " ++ word.1) ++ ":\"" ++ literal ++ "\""

end CryptoField

/-- The operations that take literals. -/
inductive CryptoForm where
  | encryption | decryption | hashing | signing | verification

namespace CryptoForm

/-- What stands for the operation. -/
def verb : CryptoForm → String × Terminal
  | encryption => ("encrypt", .encrypt)
  | decryption => ("decrypt", .decrypt)
  | hashing => ("#", .hash)
  | signing => ("sign", .sign)
  | verification => ("verify", .verify)

/-- The literals of the operation, in order. -/
def fields : CryptoForm → List CryptoField
  | encryption | decryption | signing => [.data, .key, .algorithm]
  | hashing => [.data, .algorithm]
  | verification => [.signature, .data, .key, .algorithm]

def rule : CryptoForm → Rule
  | encryption => .encryption
  | decryption => .decryption
  | hashing => .hashing
  | signing => .signing
  | verification => .verification

/-- The rule that takes the operation for a cryptographic statement. -/
def statementRule : CryptoForm → Rule
  | encryption => .cryptoEncryption
  | decryption => .cryptoDecryption
  | hashing => .cryptoHashing
  | signing => .cryptoSigning
  | verification => .cryptoVerification

/-- The node that has these texts for the fields of the operation. -/
def node (form : CryptoForm) (name : String) (literal : CryptoField → String) : Node :=
  match form with
  | encryption =>
    .encryption name (.string (literal .data)) (.string (literal .key)) (some (literal .algorithm))
  | decryption =>
    .decryption name (.string (literal .data)) (.string (literal .key)) (some (literal .algorithm))
  | hashing => .hashing name (.string (literal .data)) (some (literal .algorithm))
  | signing =>
    .signing name (.string (literal .data)) (.string (literal .key)) (some (literal .algorithm))
  | verification => .verification name (.string (literal .signature)) (.string (literal .data))
      (.string (literal .key)) (some (literal .algorithm))

/-- The fields for which the colon before the literal is taken. -/
def misplaced : CryptoForm → List CryptoField
  | hashing => [.data]
  | signing => [.data, .key]
  | encryption | decryption | verification => []

/-- The text that is taken for a field. -/
def taken (form : CryptoForm) (literal : CryptoField → String) (field : CryptoField) : String :=
  if field ∈ form.misplaced then ":" else literal field

end CryptoForm

/-- A cryptographic statement in writing. -/
structure CryptoStatement where
  form : CryptoForm
  name : String
  literal : CryptoField → String

namespace CryptoStatement

/-- The tokens of a statement that has this for its verb. -/
def contentsWith (w : CryptoStatement) (verb : Terminal × Value) : List (Terminal × Value) :=
  (.define, .text "define") :: (.identifier, .text w.name) :: (.equals, .text "=") :: verb ::
    w.form.fields.flatMap fun field => field.contents (w.literal field)

def contents (w : CryptoStatement) : List (Terminal × Value) :=
  w.contentsWith (w.form.verb.2, .text w.form.verb.1)

/-- The statement on a line of its own, with this for its verb. -/
def textWith (w : CryptoStatement) (verb : String) : String :=
  "define " ++ w.name ++ " = " ++ verb ++
    String.join (w.form.fields.map fun field => field.text (w.literal field)) ++
    "\\\\\n"

def text (w : CryptoStatement) : String := w.textWith w.form.verb.1

/-- The declaration that carries the literals as they are written. -/
def faithful (w : CryptoStatement) : Node :=
  .declaration w.name none (w.form.node w.name w.literal) false

/-- The declaration that is built. -/
def declared (w : CryptoStatement) : Node :=
  .declaration w.name none (w.form.node w.name (w.form.taken w.literal)) false

/-- The tokens of a script of statements. -/
def script (ws : List CryptoStatement) : List (Terminal × Value) :=
  (ws.map contents).flatMap (· ++ [(.terminator, .text "\\\\")])

/-- The literals come through exactly if each one that is passed over is itself
a colon. -/
theorem declared_eq_faithful_iff (w : CryptoStatement) :
    w.declared = w.faithful ↔ ∀ field ∈ w.form.misplaced, w.literal field = ":" := by
  obtain ⟨form, name, literal⟩ := w
  cases form <;> simp [declared, faithful, CryptoForm.node, CryptoForm.taken,
    CryptoForm.misplaced, eq_comm]

/-! ### What the statements mean -/

/-- The rule of a statement picks the literals of its declaration from the
tokens, by their places. -/
theorem join_rule (w : CryptoStatement) :
    Build.join w.form.rule (w.contents.map fun content => .leaf content.2) =
      some (.node w.declared) := by
  obtain ⟨form, name, literal⟩ := w
  cases form <;> rfl

theorem symbols_rule (w : CryptoStatement) :
    w.form.rule.production.symbols = w.contents.map fun content => .t content.1 := by
  obtain ⟨form, name, literal⟩ := w
  cases form <;> rfl

/-- The tokens of a statement mean the declaration of its name. -/
theorem means_statement (policy : ElementPolicy) (w : CryptoStatement) :
    Means policy (.n .statement) w.contents (.node w.declared) := by
  have hRules : ∀ form : CryptoForm,
      (form.rule.elementFree = true ∧ form.rule.canRefuse = false) ∧
      (form.statementRule.elementFree = true ∧ form.statementRule.canRefuse = false) ∧
      form.statementRule.production = ⟨.cryptoStatement, [.n form.rule.production.phrase]⟩ := by
    rintro ⟨⟩ <;> decide
  obtain ⟨hRule, hStatementRule, hProduction⟩ := hRules w.form
  have hTokens : MeanAll policy w.form.rule.production.symbols w.contents
      (w.contents.map fun content => .leaf content.2) := by
    rw [symbols_rule]
    exact .tokens policy w.contents
  have hOperation := means_node w.form.rule hRule hTokens w.join_rule
  have hJoin : Build.join w.form.statementRule [.node w.declared] = some (.node w.declared) := by
    obtain ⟨form, name, literal⟩ := w
    cases form <;> rfl
  have hCrypto := means_single w.form.statementRule hStatementRule
    (congrArg Rule.Production.symbols hProduction)
    hOperation hJoin
  rw [hProduction] at hCrypto
  exact means_single .statementCrypto ⟨rfl, rfl⟩ rfl hCrypto rfl

/-- The tokens of such statements, each with its terminator, mean the program
of their declarations. -/
theorem means_script (policy : ElementPolicy) (ws : List CryptoStatement) :
    Means policy (.n .program) (script ws) (.node (.program (ws.map declared))) := by
  refine means_statements ?_
  rw [List.forall₂_map_left_iff, List.forall₂_map_right_iff, List.forall₂_same]
  exact fun w _ => w.means_statement policy

end CryptoStatement

/-! ### How the statements are laid out -/

section layout

open Lexer (Laid Spelled IsName Detached detached_cons)

variable {others : List (Terminal × Value)} {source : List Char}

/-- Reserved words, each behind a blank. -/
theorem laid_words {words : List (String × Terminal)}
    (hWords : ∀ word ∈ words, word ∈ Terminal.reserved ∧ word.2 ≠ .boolean)
    (hSource : Detached source) (rest : Laid others source) :
    Detached (words.flatMap (fun word => ' ' :: word.1.toList) ++ source) ∧
      Laid (words.map (fun word => (word.2, .text word.1)) ++ others)
        (words.flatMap (fun word => ' ' :: word.1.toList) ++ source) := by
  induction words with
  | nil => exact ⟨hSource, rest⟩
  | cons word words ih =>
      obtain ⟨⟨hListed, hPlain⟩, hOthers⟩ := List.forall_mem_cons.mp hWords
      obtain ⟨hDetached, hLaid⟩ := ih hOthers
      rw [List.flatMap_cons, List.cons_append, List.cons_append, List.append_assoc]
      exact ⟨detached_cons (by decide) _,
        .blank (by decide) (.cons (.reserved hListed hPlain) (hDetached _) hLaid)⟩

/-- A field with a legal literal is laid out before whatever is laid out. -/
theorem laid_field (field : CryptoField) {literal : String}
    (hLegal : Run.IsLiteralBody literal.toList) (rest : Laid others source) :
    Detached ((field.text literal).toList ++ source) ∧
      Laid (field.contents literal ++ others) ((field.text literal).toList ++ source) := by
  have hLabel : ∀ word ∈ field.label, word ∈ Terminal.reserved ∧ word.2 ≠ .boolean := by
    cases field <;> decide
  have hLiteral : Laid ((.colon, .text ":") :: (.text, .text literal) :: others)
      (":".toList ++ ('"' :: (literal.toList ++ ['"']) ++ source)) :=
    .mark (by decide) (stops_cons (by decide) _) (.cons (.literal hLegal) trivial rest)
  have hText : (field.text literal).toList ++ source =
      field.label.flatMap (fun word => ' ' :: word.1.toList) ++
      (":".toList ++ ('"' :: (literal.toList ++ ['"']) ++ source)) := by
    simp [CryptoField.text, List.flatMap_map]
  rw [hText, CryptoField.contents, List.append_assoc]
  exact laid_words hLabel (detached_cons (by decide) _) hLiteral

/-- Fields with legal literals are laid out one after the other. The induction
is on the fields, and what comes behind each is detached from it. -/
theorem laid_fields (fields : List CryptoField) {literal : CryptoField → String}
    (hLegal : ∀ field ∈ fields, Run.IsLiteralBody (literal field).toList)
    (hSource : Detached source) (rest : Laid others source) :
    Detached (fields.flatMap (fun field => (field.text (literal field)).toList) ++ source) ∧
      Laid (fields.flatMap (fun field => field.contents (literal field)) ++ others)
        (fields.flatMap (fun field => (field.text (literal field)).toList) ++ source) := by
  induction fields with
  | nil => exact ⟨hSource, rest⟩
  | cons field fields ih =>
      obtain ⟨hFirst, hOthers⟩ := List.forall_mem_cons.mp hLegal
      rw [List.flatMap_cons, List.flatMap_cons, List.append_assoc, List.append_assoc]
      exact laid_field field hFirst (ih hOthers).2

theorem spelled_verb (form : CryptoForm) :
    Spelled (form.verb.2, .text form.verb.1) form.verb.1.toList := by
  cases form with
  | hashing => exact .mark (by decide)
  | _ => exact .reserved (by decide) (by decide)

/-- A statement is laid out with whatever word it is written, so the word can
be changed for another. -/
theorem CryptoStatement.laid_textWith {w : CryptoStatement} (hName : IsName w.name)
    (hLegal : ∀ field ∈ w.form.fields, Run.IsLiteralBody (w.literal field).toList)
    {verb : Terminal × Value} {word : String} (hVerb : Spelled verb word.toList)
    (rest : Laid others source) :
    Laid (w.contentsWith verb ++ (.terminator, .text "\\\\") :: others)
      ((w.textWith word).toList ++ source) := by
  have hEnd : Laid ((.terminator, .text "\\\\") :: others) ("\\\\".toList ++ '\n' :: source) :=
    .mark (by decide) (stops_cons (by decide) _) (.blank (by decide) rest)
  obtain ⟨hDetached, hFields⟩ :=
    laid_fields w.form.fields hLegal (detached_cons (by decide) _) hEnd
  have hText : (w.textWith word).toList ++ source = "define".toList ++ ' ' ::
      (w.name.toList ++ ' ' :: ("=".toList ++ ' ' ::
      (word.toList ++ (w.form.fields.flatMap (fun field => (field.text (w.literal field)).toList) ++
        ("\\\\".toList ++ '\n' :: source))))) := by
    simp [CryptoStatement.textWith, List.flatMap_map]
  rw [hText]
  exact .spaced (.reserved (by decide) (by decide))
    (.spaced (.name hName) (.spaced (.mark (by decide))
    (.cons hVerb (hDetached _) hFields)))

/-- Statements with names and legal literals are laid out in their text. -/
theorem CryptoStatement.laid_script {ws : List CryptoStatement}
    (hNames : ∀ w ∈ ws, IsName w.name)
    (hLegal : ∀ w ∈ ws, ∀ field ∈ w.form.fields,
      Run.IsLiteralBody (w.literal field).toList) :
    Laid (script ws) (String.join (ws.map text)).toList := by
  rw [String.toList_join, List.flatMap_map]
  induction ws with
  | nil => exact .nil
  | cons w ws ih =>
      obtain ⟨hName, hOtherNames⟩ := List.forall_mem_cons.mp hNames
      obtain ⟨hLiterals, hOtherLiterals⟩ := List.forall_mem_cons.mp hLegal
      have hRest :=
        laid_textWith hName hLiterals (spelled_verb w.form) (ih hOtherNames hOtherLiterals)
      rw [script, List.map_cons, List.flatMap_cons, List.append_assoc, List.flatMap_cons]
      exact hRest

end layout

/-! ### Scripts -/

namespace Parse

open Automaton
open Lexer (Laid IsName scan)

theorem isName_hash : IsName "hash" :=
  ⟨⟨'h', ['a', 's', 'h'], rfl, by decide, List.all_eq_true.mp rfl⟩, by decide⟩

/-- A statement of hashing that begins with a word in place of the mark is
refused where its data begin, whatever stands behind it. Behind the word the
state is that of a name in an expression, which data cannot follow. -/
theorem tree_of_hashing_word {policy : ElementPolicy} {w : CryptoStatement}
    (hForm : w.form = .hashing) {word : String} {others : List (Terminal × Value)}
    {source : String}
    (hLaid : Laid (w.contentsWith (.identifier, .text word) ++ others) source.toList) :
    ∃ t, (scan source).tokens[4]? = some t ∧ t.content = (.data, .text "data") ∧
      (parse policy source).tree = .error (.syntactic (.unexpected t.line t.place.column "data"
        (String.ofList (lineAt source.toList (t.line - 1))))) := by
  obtain ⟨form, name, literal⟩ := w
  subst hForm
  have hWalk : walk? 0 [.t .define, .t .identifier, .t .equals, .t .identifier] = some 27 := by
    decide +kernel
  have hStuck : decision 27 .data = none := by decide +kernel
  obtain ⟨t, hFifth, hContent, hTree⟩ :=
    tree_of_walk [(.define, .text "define"), (.identifier, .text name), (.equals, .text "="),
      (.identifier, .text word)] hLaid hWalk hStuck
  refine ⟨t, hFifth, hContent, ?_⟩
  rw [hTree, unfitting, show t.value = .text "data" from congrArg Prod.snd hContent]
  rfl

/-- A script of cryptographic statements, with whatever names and legal
literals and however it is laid out, is parsed to their declarations. The
literals of a statement come through exactly if each one in a misplaced field
is a colon; encryption, decryption and verification have no such fields.
Hashing under its own name is refused where its data begin. -/
theorem parse_cryptography (policy : ElementPolicy) (ws : List CryptoStatement)
    (hNames : ∀ w ∈ ws, IsName w.name)
    (hLegal : ∀ w ∈ ws, ∀ field ∈ w.form.fields,
      Run.IsLiteralBody (w.literal field).toList) :
    (Laid (CryptoStatement.script ws) (String.join (ws.map CryptoStatement.text)).toList ∧
      ∀ source : String, Laid (CryptoStatement.script ws) source.toList →
        (parse policy source).tree = .ok (.program (ws.map CryptoStatement.declared))) ∧
    (∀ w ∈ ws, w.declared = w.faithful ↔ ∀ field ∈ w.form.misplaced,
      w.literal field = ":") ∧
    ∀ w ∈ ws, w.form = .hashing →
      Laid (w.contentsWith (.identifier, .text "hash") ++ [(.terminator, .text "\\\\")])
        (w.textWith "hash").toList ∧
      ∀ (others : List (Terminal × Value)) (source : String),
        Laid (w.contentsWith (.identifier, .text "hash") ++ others) source.toList →
          ∃ t, (scan source).tokens[4]? = some t ∧ t.content = (.data, .text "data") ∧
            (parse policy source).tree =
              .error (.syntactic (.unexpected t.line t.place.column "data"
              (String.ofList (lineAt source.toList (t.line - 1))))) := by
  refine ⟨⟨CryptoStatement.laid_script hNames hLegal, ?_⟩,
    fun w _ => w.declared_eq_faithful_iff, ?_⟩
  · intro source hLaid
    exact tree_of_means hLaid (CryptoStatement.means_script policy ws)
  · intro w hw hForm
    refine ⟨?_, fun others source hLaid => tree_of_hashing_word hForm hLaid⟩
    have hText := CryptoStatement.laid_textWith (hNames w hw) (hLegal w hw) (.name isName_hash) .nil
    rwa [List.append_nil] at hText

/-- The literals of a message that begins with a guarded quote. -/
def messageLiteral : CryptoField → String
  | .signature => "s"
  | .data => "\\\"m"
  | .key => "k"
  | .algorithm => "RSA"

theorem isLiteralBody_messageLiteral (field : CryptoField) :
    Run.IsLiteralBody (messageLiteral field).toList := by
  rw [← Lexer.isLiteral_iff]
  cases field with
  | signature => exact ⟨"s\"".toList, [], rfl⟩
  | data => exact ⟨"\\\"m\"".toList, [], rfl⟩
  | key => exact ⟨"k\"".toList, [], rfl⟩
  | algorithm => exact ⟨"RSA\"".toList, [], rfl⟩

/-- The message is encrypted, hashed and verified. -/
def messageStatements : List CryptoStatement :=
  [⟨.encryption, "c", messageLiteral⟩, ⟨.hashing, "h", messageLiteral⟩,
    ⟨.verification, "v", messageLiteral⟩]

theorem isName_messageStatements : ∀ w ∈ messageStatements, IsName w.name := by
  have hC : IsName "c" := ⟨⟨'c', [], rfl, by decide, List.all_eq_true.mp rfl⟩, by decide⟩
  have hH : IsName "h" := ⟨⟨'h', [], rfl, by decide, List.all_eq_true.mp rfl⟩, by decide⟩
  have hV : IsName "v" := ⟨⟨'v', [], rfl, by decide, List.all_eq_true.mp rfl⟩, by decide⟩
  exact List.forall_mem_cons.mpr
    ⟨hC, List.forall_mem_cons.mpr ⟨hH, List.forall_mem_singleton.mpr hV⟩⟩

theorem isLiteralBody_messageStatements : ∀ w ∈ messageStatements, ∀ field ∈ w.form.fields,
    Run.IsLiteralBody (w.literal field).toList := by
  have hLiterals : ∀ w ∈ messageStatements, w.literal = messageLiteral :=
    List.forall_mem_cons.mpr ⟨rfl,
      List.forall_mem_cons.mpr ⟨rfl, List.forall_mem_singleton.mpr rfl⟩⟩
  intro w hw field _
  rw [hLiterals w hw]
  exact isLiteralBody_messageLiteral field

def messageScript : String :=
  "define c = encrypt data:\"\\\"m\" with key:\"k\" algorithm:\"RSA\"\\\\\n" ++
  "define h = # data:\"\\\"m\" algorithm:\"RSA\"\\\\\n" ++
  "define v = verify signature:\"s\" data:\"\\\"m\" with key:\"k\" algorithm:\"RSA\"\\\\\n"

/-- The message is hashed under the name of the operation. -/
def hashingScript : String := "define h = hash data:\"\\\"m\" algorithm:\"RSA\"\\\\\n"

/-- A text is encrypted, hashed and verified. The data of the hash is a colon,
and the other literals are as written. -/
theorem parse_cryptography_message :
    (parse .refuse messageScript).tree = .ok (.program [
      .declaration "c" none (.encryption "c" (.string "\\\"m") (.string "k") (some "RSA")) false,
      .declaration "h" none (.hashing "h" (.string ":") (some "RSA")) false,
      .declaration "v" none (.verification "v" (.string "s") (.string "\\\"m") (.string "k")
        (some "RSA")) false]) ∧
    (parse .refuse hashingScript).tree = .error (.syntactic (.unexpected 1 17 "data"
      "define h = hash data:\"\\\"m\" algorithm:\"RSA\"\\\\")) := by
  obtain ⟨⟨hLaid, hTree⟩, -, hHashing⟩ :=
    parse_cryptography .refuse messageStatements isName_messageStatements
    isLiteralBody_messageStatements
  obtain ⟨hWord, hRefused⟩ := hHashing _ (.tail _ (.head _)) rfl
  obtain ⟨t, hFifth, -, hFault⟩ := hRefused _ hashingScript hWord
  refine ⟨hTree messageScript hLaid, ?_⟩
  have hPlace : (scan hashingScript).tokens[4]?.map (fun t => (t.line, t.place.column)) =
      some (1, 17) := by
    decide +kernel
  rw [hFifth] at hPlace
  obtain ⟨hLine, hColumn⟩ := Prod.mk.inj (Option.some.inj hPlace)
  rw [hFault, hLine, hColumn]
  rfl

/-- Signing the message passes over the message and the key. -/
theorem parse_signing_colons :
    (parse .refuse "define s = sign data:\"\\\"m\" with key:\"k\" algorithm:\"RSA\"\\\\\n").tree =
      .ok (.program [.declaration "s" none (.signing "s" (.string ":") (.string ":") (some "RSA"))
        false]) := by
  have hName : IsName "s" := ⟨⟨'s', [], rfl, by decide, List.all_eq_true.mp rfl⟩, by decide⟩
  let w : CryptoStatement := ⟨.signing, "s", messageLiteral⟩
  have hLaid : Laid (CryptoStatement.script [w]) (String.join [w.text]).toList :=
    CryptoStatement.laid_script (List.forall_mem_singleton.mpr hName)
      (List.forall_mem_singleton.mpr fun field _ => isLiteralBody_messageLiteral field)
  exact tree_of_means hLaid (CryptoStatement.means_script .refuse [w])

end Parse

end PageScript
