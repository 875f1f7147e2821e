import Mathlib.Data.List.Nodup
import PageScript.Proofs.Parse.Acceptance
import PageScript.Proofs.Table

/-! Statements that generate a key. The settings are read into a table, one
after the other, and the table is laid over the one that holds the type. Main
statement: such a statement, however it is laid out, is parsed to the
declaration of a key that has for its algorithm, size and database the last
value that is given for each. So the order of settings with different keys does
not matter, and neither do settings with other keys. -/
namespace PageScript

open Lexer (Laid Spelled IsName IsDigits Detached detached_cons)

/-! ### Statements in writing -/

/-- The reserved words that name a setting, with the tokens that they are and
the rules that read the settings. -/
def settingWords : List (String × Terminal × Rule) :=
  [("db", .db, .settingDb), ("size", .size, .settingSize),
    ("algorithm", .algorithm, .settingAlgorithm), ("key", .key, .settingKey),
    ("data", .data, .settingData), ("signature", .signature, .settingSignature)]

/-- A word that names a setting. -/
inductive IsSettingKey : String → Terminal → Rule → Prop where
  | name {word : String} (named : IsName word) : IsSettingKey word .identifier .settingIdentifier
  | reserved {word : String} {kind : Terminal} {rule : Rule}
      (listed : (word, kind, rule) ∈ settingWords) :
      IsSettingKey word kind rule

/-- A literal that is given for a setting. -/
inductive SettingValue where
  | text (body : String) (legal : Run.IsLiteralBody body.toList)
  | integer (n : Nat) (short : (toString n).length ≤ digitLimit)

namespace SettingValue

def value : SettingValue → Value
  | text body _ => .text body
  | integer n _ => .int n

def kind : SettingValue → Terminal
  | text _ _ => .text
  | integer _ _ => .integer

def written : SettingValue → String
  | text body _ => "\"" ++ body ++ "\""
  | integer n _ => toString n

end SettingValue

/-- One setting in writing. -/
structure KeySetting where
  key : String
  kind : Terminal
  rule : Rule
  keyed : IsSettingKey key kind rule
  given : SettingValue

namespace KeySetting

def entry (s : KeySetting) : String × Value := (s.key, s.given.value)

def contents (s : KeySetting) : List (Terminal × Value) :=
  [(s.kind, .text s.key), (.colon, .text ":"), (s.given.kind, s.given.value)]

/-- The setting behind a comma. -/
def written (s : KeySetting) : String := ", " ++ s.key ++ ":" ++ s.given.written

end KeySetting

/-- A statement that generates a key, in writing. -/
structure KeyGeneration where
  name : String
  named : IsName name
  type : String
  legal : Run.IsLiteralBody type.toList
  settings : List KeySetting

/-- The last of the settings with this key. -/
def lastSetting? (settings : List KeySetting) (key : String) : Option KeySetting :=
  (settings.filter (·.key == key)).getLast?

namespace KeyGeneration

def contents (w : KeyGeneration) : List (Terminal × Value) :=
  (.define, .text "define") :: (.identifier, .text w.name) :: (.equals, .text "=") ::
    (.generateKey, .text "generate_key") :: (.typeWord, .text "type") :: (.colon, .text ":") ::
      (.text, .text w.type) ::
      w.settings.flatMap fun s => (.comma, .text ",") :: s.contents

/-- The tokens of a script that is this statement. -/
def script (w : KeyGeneration) : List (Terminal × Value) :=
  w.contents ++ [(.terminator, .text "\\\\")]

/-- The statement on a line of its own. -/
def written (w : KeyGeneration) : String :=
  "define " ++ w.name ++ " = generate_key type:\"" ++ w.type ++ "\"" ++
    String.join (w.settings.map KeySetting.written) ++ "\\\\\n"

/-- What is given last for a key, or nothing. -/
def lastGiven (w : KeyGeneration) (key : String) : Value :=
  (lastSetting? w.settings key).elim .none (·.given.value)

/-- The declaration of the generated key. An empty type is none. -/
def declared (w : KeyGeneration) : Node :=
  .declaration w.name none
    (.keyGeneration w.name (if w.type = "" then .unknown else .type (.named w.type))
      (w.lastGiven "algorithm") (w.lastGiven "size") (w.lastGiven "db")) false

end KeyGeneration

/-! ### The last setting -/

/-- What the table has for a key is what the last setting of it gives. -/
theorem lookup_reverse_entries (settings : List KeySetting) (key : String) :
    (settings.map KeySetting.entry).reverse.lookup key =
      (lastSetting? settings key).map (·.given.value) := by
  have hFind (found : List KeySetting) :
      (found.map KeySetting.entry).lookup key =
        (found.find? (·.key == key)).map (·.given.value) := by
    induction found with
    | nil => rfl
    | cons s rest ih =>
        rw [List.map_cons, KeySetting.entry, List.lookup_cons, List.find?_cons, BEq.comm, ih]
        cases s.key == key <;> rfl
  rw [← List.map_reverse, hFind, lastSetting?, List.getLast?_filter]

/-- Where all keys are different, the last setting with a key is the only
one. -/
theorem lastSetting?_eq_some_iff {settings : List KeySetting}
    (hKeys : (settings.map KeySetting.key).Nodup) {key : String} {s : KeySetting} :
    lastSetting? settings key = some s ↔ s ∈ settings ∧ s.key = key := by
  constructor
  · intro hLast
    have hMember := List.mem_of_getLast? hLast
    rw [List.mem_filter, beq_iff_eq] at hMember
    exact hMember
  · rintro ⟨hMember, hKey⟩
    have hFiltered : s ∈ settings.filter (·.key == key) :=
      List.mem_filter.mpr ⟨hMember, beq_iff_eq.mpr hKey⟩
    cases hLast : lastSetting? settings key with
    | none =>
        rw [List.getLast?_eq_none_iff.mp hLast] at hFiltered
        cases hFiltered
    | some last =>
        have hOther := List.mem_of_getLast? hLast
        rw [List.mem_filter, beq_iff_eq] at hOther
        rw [List.inj_on_of_nodup_map hKeys hOther.1 hMember (hOther.2.trans hKey.symm)]

/-- Where the keys are different, the order of the settings does not matter for
the value of a key. -/
theorem lastSetting?_perm {settings others : List KeySetting} (hPerm : others.Perm settings)
    (hKeys : (settings.map KeySetting.key).Nodup) (key : String) :
    lastSetting? others key = lastSetting? settings key := by
  have hOthers : (others.map KeySetting.key).Nodup := (hPerm.map KeySetting.key).nodup_iff.mpr hKeys
  refine Option.ext fun s => ?_
  rw [lastSetting?_eq_some_iff hOthers, lastSetting?_eq_some_iff hKeys, hPerm.mem_iff]

/-- The keys that a generated key takes its settings from. -/
def keysTaken : List String := ["algorithm", "size", "db"]

/-- The generated key depends on the last settings that it takes and on nothing
else. -/
theorem KeyGeneration.declared_congr {v w : KeyGeneration} (hName : v.name = w.name)
    (hType : v.type = w.type) (hLast : ∀ key ∈ keysTaken, lastSetting? v.settings key =
      lastSetting? w.settings key) :
    v.declared = w.declared := by
  have hGiven : ∀ key ∈ keysTaken, v.lastGiven key = w.lastGiven key := fun key hKey => by
    rw [lastGiven, hLast key hKey, lastGiven]
  rw [declared, declared, hName, hType, hGiven "algorithm" (by decide), hGiven "size" (by decide),
    hGiven "db" (by decide)]

/-! ### What the statements mean -/

section meaning

variable {policy : ElementPolicy}

theorem means_settingValue (policy : ElementPolicy) (v : SettingValue) :
    Means policy (.n .settingValue) [(v.kind, v.value)] (.leaf v.value) := by
  cases v with
  | text body legal => exact means_single .settingText ⟨rfl, rfl⟩ rfl (means_token _ _ _) rfl
  | integer n short => exact means_single .settingInteger ⟨rfl, rfl⟩ rfl (means_token _ _ _) rfl

/-- The rules that read settings differ in the token of the key only. -/
theorem IsSettingKey.rule_spec {key : String} {kind : Terminal} {rule : Rule}
    (h : IsSettingKey key kind rule) :
    (rule.elementFree = true ∧ rule.canRefuse = false) ∧
      rule.production = ⟨.setting, [.t kind, .t .colon, .n .settingValue]⟩ ∧
      ∀ value, Build.join rule [.leaf (.text key), .leaf (.text ":"), .leaf value] =
        some (.settings (.ofEntries [(key, value)])) := by
  cases h with
  | name named => exact ⟨⟨rfl, rfl⟩, rfl, fun _ => rfl⟩
  | reserved listed =>
      simp only [settingWords, List.mem_cons, List.not_mem_nil, or_false, Prod.mk.injEq] at listed
      rcases listed with ⟨rfl, rfl, rfl⟩ | ⟨rfl, rfl, rfl⟩ | ⟨rfl, rfl, rfl⟩ |
        ⟨rfl, rfl, rfl⟩ | ⟨rfl, rfl, rfl⟩ |
        ⟨rfl, rfl, rfl⟩ <;> exact ⟨⟨rfl, rfl⟩, rfl, fun _ => rfl⟩

theorem means_setting (policy : ElementPolicy) (s : KeySetting) :
    Means policy (.n .setting) s.contents (.settings (.ofEntries [s.entry])) := by
  obtain ⟨hRule, hProduction, hJoin⟩ := s.keyed.rule_spec
  have hParts : MeanAll policy s.rule.production.symbols s.contents
      [.leaf (.text s.key), .leaf (.text ":"), .leaf s.given.value] := by
    rw [hProduction]
    exact .cons (means_token _ _ _)
      (.cons (means_token _ _ _) (.single (means_settingValue policy s.given)))
  have hSetting := means_node s.rule hRule hParts (hJoin s.given.value)
  rw [hProduction] at hSetting
  exact hSetting

/-- Settings are added to the table one by one. The list is left recursive, so
the induction carries what has been read so far. -/
theorem means_settings_append {given : List (Terminal × Value)} {t : Table Value}
    (h : Means policy (.n .settings) given (.settings t)) (later : List KeySetting) :
    Means policy (.n .settings) (given ++ later.flatMap fun s => (.comma, .text ",") :: s.contents)
      (.settings (t.update ⟨later.map KeySetting.entry⟩)) := by
  induction later generalizing given t with
  | nil =>
      rw [List.flatMap_nil, List.append_nil]
      exact h
  | cons s later ih =>
      have hMore : Means policy (.n .settings) (given ++ (.comma, .text ",") :: s.contents)
          (.settings (t.set s.entry.1 s.entry.2)) :=
        means_node .settingsMore ⟨rfl, rfl⟩
          (.cons h (.cons (means_token _ _ _) (.single (means_setting policy s)))) rfl
      have hAll := ih hMore
      rw [List.append_assoc] at hAll
      exact hAll

/-- Settings behind commas mean a table, into which they are entered one after
the other. The list is left recursive, so the induction adds them at its
end. -/
theorem means_settings (policy : ElementPolicy) (settings : List KeySetting) :
    Means policy (.n .settingsOpt) (settings.flatMap fun s => (.comma, .text ",") :: s.contents)
      (.settings (.ofEntries (settings.map KeySetting.entry))) := by
  cases settings with
  | nil =>
      have hNothing : Means policy (.n .nothing) [] .nothing :=
        means_node .nothing ⟨rfl, rfl⟩ .nil rfl
      exact means_single .settingsAbsent ⟨rfl, rfl⟩ rfl hNothing rfl
  | cons s later =>
      have hOne := means_single .settingsOne ⟨rfl, rfl⟩ rfl (means_setting policy s) rfl
      rw [List.flatMap_cons, List.cons_append]
      exact means_node .settingsGiven ⟨rfl, rfl⟩
        (.cons (means_token _ _ _) (.single (means_settings_append hOne later))) rfl

/-- No setting gives the type, which is a reserved word of its own. -/
theorem lookup_entries_type (settings : List KeySetting) :
    (settings.map KeySetting.entry).reverse.lookup "type" = none := by
  rw [List.lookup_eq_none_iff]
  intro entry hEntry
  obtain ⟨s, -, rfl⟩ := List.mem_map.mp (List.mem_reverse.mp hEntry)
  rw [bne_iff_ne, KeySetting.entry]
  intro hType
  obtain ⟨key, kind, rule, keyed, given⟩ := s
  cases hType
  cases keyed with
  | name named => exact absurd named.unreserved (by decide)
  | reserved listed => simp [settingWords] at listed

/-- The table of all settings: the type, and over it what is given last for
each key. -/
def KeyGeneration.table (w : KeyGeneration) : Table Value :=
  (Table.ofEntries [("type", .text w.type)]).update (.ofEntries (w.settings.map KeySetting.entry))

theorem KeyGeneration.get?_table_type (w : KeyGeneration) :
    w.table.get? "type" = some (.text w.type) := by
  rw [table, Table.get?_update_ofEntries, lookup_entries_type]
  rfl

/-- Any other key has in the table the last value that is given for it, or
none. -/
theorem KeyGeneration.get?_table_getD (w : KeyGeneration) {key : String} (h : key ≠ "type") :
    (w.table.get? key).getD .none = w.lastGiven key := by
  have hType : (Table.ofEntries [("type", Value.text w.type)]).get? key = none :=
    Table.get?_set_of_ne .empty h (Value.text w.type)
  rw [table, Table.get?_update_ofEntries, lookup_reverse_entries, hType, Option.or_none, lastGiven]
  cases lastSetting? w.settings key <;> rfl

theorem KeyGeneration.generatedKey_table (w : KeyGeneration) :
    .declaration w.name none (Build.generatedKey w.name w.table) false = w.declared := by
  simp only [Build.generatedKey, w.get?_table_type,
    w.get?_table_getD (show "algorithm" ≠ "type" by decide),
    w.get?_table_getD (show "size" ≠ "type" by decide),
    w.get?_table_getD (show "db" ≠ "type" by decide), declared]

/-- The tokens of the statement mean the declaration of the key. -/
theorem KeyGeneration.means_contents (policy : ElementPolicy) (w : KeyGeneration) :
    Means policy (.n .statement) w.contents (.node w.declared) := by
  have hType : Means policy (.n .keyKind) [(.typeWord, .text "type"), (.colon, .text ":"),
      (.text, .text w.type)]
      (.settings (.ofEntries [("type", .text w.type)])) :=
    means_node .keyKind ⟨rfl, rfl⟩
      (.cons (means_token _ _ _) (.cons (means_token _ _ _) (.single (means_token _ _ _)))) rfl
  have hJoin : Build.join .keyGeneration [.leaf (.text "define"), .leaf (.text w.name),
      .leaf (.text "="), .leaf (.text "generate_key"),
      .settings (.ofEntries [("type", .text w.type)]),
      .settings (.ofEntries (w.settings.map KeySetting.entry))] = some (.node w.declared) := by
    rw [← generatedKey_table]
    rfl
  have hGeneration : Means policy (.n .keyGeneration) w.contents (.node w.declared) :=
    means_node .keyGeneration ⟨rfl, rfl⟩
      (.cons (means_token _ _ _) (.cons (means_token _ _ _) (.cons (means_token _ _ _)
      (.cons (means_token _ _ _) (.cons hType (.single (means_settings policy w.settings)))))))
        hJoin
  exact means_single .statementCrypto ⟨rfl, rfl⟩ rfl
    (means_single .cryptoKey ⟨rfl, rfl⟩ rfl hGeneration rfl) rfl

theorem KeyGeneration.means_script (policy : ElementPolicy) (w : KeyGeneration) :
    Means policy (.n .program) w.script (.node (.program [w.declared])) := by
  have hProgram := means_statements (.cons (w.means_contents policy) .nil)
  rw [List.flatMap_singleton] at hProgram
  exact hProgram

end meaning

/-! ### How the statements are laid out -/

section layout

variable {others : List (Terminal × Value)} {source : List Char}

/-- The key of a setting is a keyword or a name, and is spelled as it is. -/
theorem IsSettingKey.spelled {key : String} {kind : Terminal} {rule : Rule}
    (h : IsSettingKey key kind rule) :
    Spelled (kind, .text key) key.toList := by
  cases h with
  | name named => exact .name named
  | reserved listed =>
      have hWords : ∀ word ∈ settingWords, (word.1, word.2.1) ∈ Terminal.reserved ∧
          word.2.1 ≠ .boolean := by decide
      obtain ⟨hListed, hPlain⟩ := hWords _ listed
      exact .reserved hListed hPlain

theorem SettingValue.spelled (v : SettingValue) : Spelled (v.kind, v.value) v.written.toList := by
  cases v with
  | text body legal =>
      have hText : (text body legal).written.toList = '"' :: (body.toList ++ ['"']) := by
        simp [written]
      rw [hText]
      exact .literal legal
  | integer n short => exact Lexer.spelled_toString short

/-- A literal does not run on into a mark before it. -/
theorem SettingValue.stops_written (v : SettingValue) (source : List Char) :
    Stops Lexer.extendsMark (v.written.toList ++ source) := by
  cases v with
  | text body legal =>
      rw [written, String.toList_append, String.toList_append, List.append_assoc, List.append_assoc]
      exact stops_cons (by decide) _
  | integer n short =>
      obtain ⟨first, more, hDigits⟩ := Lexer.exists_toString_eq_cons n
      have hMember : first ∈ (toString n).toList := by
        rw [hDigits]
        exact .head _
      have hFirst : first.isDigit = true := Digit.isDigit_of_mem_toString first hMember
      rw [written, hDigits]
      refine stops_cons ?_ _
      rw [Lexer.extendsMark, Lexer.beq_eq_false_of_class hFirst (by decide),
        Lexer.beq_eq_false_of_class hFirst (by decide)]
      rfl

/-- A setting behind a comma is laid out before whatever is laid out. -/
theorem laid_setting (s : KeySetting) (hSource : Detached source) (rest : Laid others source) :
    Detached (s.written.toList ++ source) ∧
      Laid ((.comma, .text ",") :: s.contents ++ others) (s.written.toList ++ source) := by
  have hText : s.written.toList ++ source =
      ",".toList ++ ' ' ::
        (s.key.toList ++ (":".toList ++ (s.given.written.toList ++ source))) := by
    simp [KeySetting.written]
  have hGiven : Laid ((s.given.kind, s.given.value) :: others) (s.given.written.toList ++ source) :=
    .cons s.given.spelled (hSource _) rest
  have hKey : Laid (s.contents ++ others)
      (s.key.toList ++ (":".toList ++ (s.given.written.toList ++ source))) :=
    .cons s.keyed.spelled (detached_cons (by decide) _ _)
      (.mark (by decide) (s.given.stops_written source) hGiven)
  rw [hText]
  exact ⟨detached_cons (by decide) _, .spaced (.mark (by decide)) hKey⟩

/-- Settings behind commas are laid out one after the other. -/
theorem laid_settings (settings : List KeySetting) (hSource : Detached source)
    (rest : Laid others source) :
    Detached (settings.flatMap (fun s => s.written.toList) ++ source) ∧
      Laid (settings.flatMap (fun s => (.comma, .text ",") :: s.contents) ++ others)
        (settings.flatMap (fun s => s.written.toList) ++ source) := by
  induction settings with
  | nil => exact ⟨hSource, rest⟩
  | cons s settings ih =>
      rw [List.flatMap_cons, List.flatMap_cons, List.append_assoc, List.append_assoc]
      exact laid_setting s ih.1 ih.2

/-- The statement is laid out in its text. -/
theorem KeyGeneration.laid_written (w : KeyGeneration) : Laid w.script w.written.toList := by
  have hEnd : Laid [(.terminator, .text "\\\\")] ("\\\\".toList ++ ['\n']) :=
    .mark (by decide) (stops_cons (by decide) _) (.blank (by decide) .nil)
  obtain ⟨hDetached, hSettings⟩ := laid_settings w.settings (detached_cons (by decide) _) hEnd
  have hText : w.written.toList = "define".toList ++ ' ' ::
      (w.name.toList ++ ' ' :: ("=".toList ++ ' ' ::
      ("generate_key".toList ++ ' ' ::
        ("type".toList ++ (":".toList ++ ('"' :: (w.type.toList ++ ['"']) ++
        (w.settings.flatMap (fun s => s.written.toList) ++ ("\\\\".toList ++ ['\n'])))))))) := by
    simp [KeyGeneration.written, List.flatMap_map]
  have hType := Laid.cons (Spelled.literal w.legal) (hDetached _) hSettings
  rw [hText]
  exact .spaced (.reserved (by decide) (by decide))
    (.spaced (.name w.named) (.spaced (.mark (by decide))
    (.spaced (.reserved (by decide) (by decide))
      (.cons (.reserved (by decide) (by decide)) (detached_cons (by decide) _ _)
      (.mark (by decide) (stops_cons (by decide) _) hType)))))

end layout

/-! ### Scripts -/

namespace Parse

/-- A statement that generates a key, with whatever name, type and settings and
however it is laid out, is parsed to a key that has the last of each of its
settings. Settings with different keys can change places, and settings with
keys that are not taken can be added and left out. -/
theorem parse_keyGeneration (policy : ElementPolicy) (w : KeyGeneration) :
    Laid w.script w.written.toList ∧
    (∀ source : String, Laid w.script source.toList →
      (parse policy source).tree = .ok (.program [w.declared])) ∧
    ∀ v : KeyGeneration, v.name = w.name → v.type = w.type →
      (v.settings.Perm w.settings → (w.settings.map KeySetting.key).Nodup →
        v.declared = w.declared) ∧
      ((∀ key ∈ keysTaken, v.settings.filter (·.key == key) =
        w.settings.filter (·.key == key)) →
        v.declared = w.declared) := by
  refine ⟨w.laid_written, fun source hLaid => tree_of_means hLaid (w.means_script policy), ?_⟩
  intro v hName hType
  constructor
  · intro hPerm hKeys
    exact KeyGeneration.declared_congr hName hType fun key _ => lastSetting?_perm hPerm hKeys key
  · intro hTaken
    refine KeyGeneration.declared_congr hName hType fun key hKey => ?_
    rw [lastSetting?, hTaken key hKey, lastSetting?]

theorem isLiteralBody_rsa : Run.IsLiteralBody "rsa".toList :=
  Lexer.isLiteral_iff.mp ⟨"rsa\"".toList, [], rfl⟩

/-- A size that is given twice, and a setting of an unknown key. -/
def sizedKey : KeyGeneration where
  name := "k"
  named := ⟨⟨'k', [], rfl, by decide, List.all_eq_true.mp rfl⟩, by decide⟩
  type := "rsa"
  legal := isLiteralBody_rsa
  settings :=
    [⟨"size", .size, .settingSize, .reserved (by decide), .integer 1 (by decide)⟩,
      ⟨"x", .identifier, .settingIdentifier,
        .name ⟨⟨'x', [], rfl, by decide, List.all_eq_true.mp rfl⟩, by decide⟩,
        .integer 2 (by decide)⟩,
      ⟨"size", .size, .settingSize, .reserved (by decide), .text "rsa" isLiteralBody_rsa⟩]

/-- Of two sizes the last one is taken, although it is a text, and a setting
with an unknown key is ignored. -/
theorem parse_keyGeneration_sizedKey :
    (parse .refuse "define k = generate_key type:\"rsa\", size:1, x:2, size:\"rsa\"\\\\\n").tree =
      .ok (.program [.declaration "k" none
        (.keyGeneration "k" (.type (.named "rsa")) .none (.text "rsa") .none) false]) := by
  obtain ⟨hLaid, hTree, -⟩ := parse_keyGeneration .refuse sizedKey
  exact hTree _ hLaid

end Parse

/-! ### Numbers that are no settings -/

namespace Lexer

/-- The pieces of a statement that gives these digits for the size of a key. -/
def sizePieces (digits : List Char) : List Piece :=
  [.token .define (.text "define") "define".toList, .blank ' ',
    .token .identifier (.text "k") "k".toList, .blank ' ', .token .equals (.text "=") "=".toList,
    .blank ' ', .token .generateKey (.text "generate_key") "generate_key".toList, .blank ' ',
    .token .typeWord (.text "type") "type".toList, .token .colon (.text ":") ":".toList,
    .token .text (.text "") ['"', '"'], .token .comma (.text ",") ",".toList, .blank ' ',
    .token .size (.text "size") "size".toList, .token .colon (.text ":") ":".toList, .blank ' ',
    .overlong digits, .token .terminator (.text "\\\\") "\\\\".toList]

/-- A statement with an overlong size is cut into its pieces, of which the size
is an overlong number. -/
theorem pieces_size {digits : List Char} (hRun : IsDigits digits)
    (hLong : digitLimit < digits.length) :
    pieces ("define k = generate_key type:\"\", size: ".toList ++ (digits ++ "\\\\".toList)) =
      sizePieces digits := by
  have hK : IsName "k" := ⟨⟨'k', [], rfl, by decide, List.all_eq_true.mp rfl⟩, by decide⟩
  have hEmpty : Run.IsLiteralBody "".toList := .nil
  have hNothing : pieces [] = [] := by rw [pieces]
  have hTerminator : ("\\\\", Terminal.terminator) ∈ Terminal.marks := by decide
  have hEnd : pieces ("\\\\".toList ++ []) = [.token .terminator (.text "\\\\") "\\\\".toList] :=
    pieces_spelled (.mark hTerminator) ((apart_mark hTerminator).mpr stops_nil) hNothing
  have hSize := pieces_overlong hRun hLong (detached_cons (by decide) _) hEnd
  show pieces ("define".toList ++ ' ' ::
      ("k".toList ++ ' ' :: ("=".toList ++ ' ' :: ("generate_key".toList ++ ' ' ::
    ("type".toList ++ (":".toList ++
      ('"' :: ("".toList ++ ['"']) ++ (",".toList ++ ' ' :: ("size".toList ++
      (":".toList ++ ' ' :: (digits ++ ("\\\\".toList ++ [])))))))))))) = sizePieces digits
  exact pieces_spaced (.reserved (by decide) (by decide))
    (pieces_spaced (.name hK) (pieces_spaced (.mark (by decide))
    (pieces_spaced (.reserved (by decide) (by decide))
      (pieces_spelled (.reserved (by decide) (by decide))
      (detached_cons (by decide) _ _)
        (pieces_spelled (.mark (by decide)) (detached_cons (by decide) _ _)
        (pieces_spelled (.literal hEmpty) trivial (pieces_spaced (.mark (by decide))
          (pieces_spelled (.reserved (by decide) (by decide)) (detached_cons (by decide) _ _)
            (pieces_spaced (.mark (by decide)) hSize)))))))))

end Lexer

namespace Parse

open Lexer (lexemes locate sizePieces)

/-- What a parse refuses: a number that is too long, or a token that does not
fit. -/
inductive Refusal where
  | number | token
  deriving DecidableEq

def refusal? : Except Fault Node → Option Refusal
  | .error (.numeral _) => some .number
  | .error (.syntactic _) => some .token
  | _ => none

/-- One digit more than can be read. -/
def overlongDigits : List Char := List.replicate (digitLimit + 1) '1'

theorem length_overlongDigits : overlongDigits.length = digitLimit + 1 := List.length_replicate

theorem isDigits_overlongDigits : IsDigits overlongDigits where
  nonempty := List.cons_ne_nil _ _
  all c hc := by
    rw [List.eq_of_mem_replicate hc]
    decide

def overlongScript : String :=
  String.ofList ("define k = generate_key type:\"\", size: ".toList ++
    (overlongDigits ++ "\\\\".toList))

/-- The lexemes of a script with a size of one digit too many. -/
theorem lexemes_overlongScript :
    lexemes overlongScript = locate .start (sizePieces overlongDigits) := by
  have hText : overlongScript.toList =
      "define k = generate_key type:\"\", size: ".toList ++ (overlongDigits ++ "\\\\".toList) :=
    String.toList_ofList
  have hLong : digitLimit < overlongDigits.length := by
    rw [length_overlongDigits]
    exact Nat.lt_succ_self _
  unfold lexemes
  rw [hText, Lexer.pieces_size isDigits_overlongDigits hLong]

/-- A size of too many digits is refused, and so is a negative one. -/
theorem parse_size_refused :
    refusal? (parse .refuse overlongScript).tree = some .number ∧
      refusal? (parse .refuse "define k = generate_key type:\"\", size: -5\\\\").tree =
        some .token := by
  have hLong : refusal? (parseLexemes .refuse overlongScript
      (locate .start (sizePieces overlongDigits))).tree =
      some .number := by decide +kernel
  have hNegative : refusal? (parse .refuse "define k = generate_key type:\"\", size: -5\\\\").tree =
      some .token := by
    decide +kernel
  refine ⟨?_, hNegative⟩
  rw [parse, lexemes_overlongScript]
  exact hLong

end Parse

end PageScript
