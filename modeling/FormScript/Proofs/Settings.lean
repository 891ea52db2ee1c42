import Mathlib.Data.Option.Basic
import Mathlib.Logic.Function.Basic
import FormScript.Evaluation.Field
import FormScript.Proofs.Keyed
import FormScript.Proofs.Numbering
import FormScript.Proofs.Plan

/-!
# What the properties of a field set

A `Setting` is the value of a property without lines and numbers of nodes, and `settings` reads from
the tokens of a field which key is set to what, again and again if a key comes again. The parser
keeps of each key the first place and the last setting (`Grammar.properties_setting?`), so a list of
properties has one setting for each key at most, and applying it gives what these settings say, in
whatever order they stand (`Run.applyProperties_gives`). Only the last settings of the known keys
count (`properties_determined_by_last_settings`).
-/

namespace FormScript

open Grammar (propertyKey?)

/-! ## Settings -/

/-- An item of an array. -/
inductive Setting.Item where
  | text (content : String)
  | name (name : String)
  deriving DecidableEq

/-- What a property sets its key to. -/
inductive Setting where
  | text (content : String)
  | truth (b : Bool)
  | number (n : Int64)
  | items (items : List Setting.Item)
  deriving DecidableEq

namespace Setting

/-- The text that is set. -/
def text? : Setting → Option String
  | text content => some content
  | _ => none

/-- The truth value that is set. -/
def truth? : Setting → Option Bool
  | truth b => some b
  | _ => none

/-- The item that a token of an array is. -/
def Item.ofToken? : Token → Option Item
  | .text content => some (.text content)
  | .identifier word => some (.name word)
  | _ => none

/-- The items of an array, from the tokens behind its opening bracket. -/
def itemsIn (tokens : List Token) : List Item :=
  (tokens.takeWhile (· ≠ .mark .closeBracket)).filterMap Item.ofToken?

/-- The setting that stands in front of tokens. -/
def ofTokens? : List Token → Option Setting
  | .text content :: _ => some (text content)
  | .boolean b :: _ => some (truth b)
  | .integer n :: _ => some (number n)
  | .mark .openBracket :: rest => some (items (itemsIn rest))
  | _ => none

end Setting

/-- The keys that the tokens up to a closing brace set, each with its setting, in the order in which
they stand. -/
def settings : List Token → List (String × Setting)
  | [] => []
  | .mark .closeBrace :: _ => []
  | .identifier key :: .mark .colon :: rest =>
    ((Setting.ofTokens? rest).map (key, ·)).toList ++ settings rest
  | _ :: rest => settings rest

/-- The last setting of a key. -/
def lastSetting (written : List (String × Setting)) (key : String) : Option Setting :=
  ((written.filter fun setting => setting.1 = key).getLast?).map Prod.snd

/-- The tokens that a stream still offers. -/
def TokenStream.tokens (s : TokenStream) : List Token :=
  s.pending.filterMap fun reading => reading.toOption.map Lexeme.token

namespace Node

/-- The item that a node of an array is. -/
def item? : Node → Option Setting.Item
  | .str _ content => some (.text content)
  | .ident _ name => some (.name name)
  | _ => none

/-- The key and the setting of a property. -/
def setting? : Node → Option (String × Setting)
  | .scalar _ key (.str _ content) => some (key, .text content)
  | .scalar _ key (.bool _ b) => some (key, .truth b)
  | .scalar _ key (.int _ n) => some (key, .number n)
  | .array _ key items => some (key, .items (items.filterMap item?))
  | _ => none

/-- A property with a setting has its key. -/
theorem propertyKey?_of_setting? {n : Node} {key : String} {setting : Setting}
    (h : n.setting? = some (key, setting)) : propertyKey? n = some key := by
  unfold setting? at h
  split at h <;> cases h <;> rfl

/-- Properties with settings have the keys of these. -/
theorem map_propertyKey? {ns : List Node} {kept : List (String × Setting)}
    (h : ns.map setting? = kept.map some) : ns.map propertyKey? = (kept.map Prod.fst).map some := by
  induction ns generalizing kept with
  | nil =>
    cases kept with
    | nil => rfl
    | cons => cases h
  | cons n ns ih =>
    cases kept with
    | nil => cases h
    | cons entry kept =>
      obtain ⟨hn, hns⟩ := List.cons.inj h
      rw [List.map_cons, propertyKey?_of_setting? hn, ih hns]
      rfl

end Node

/-- A list of properties has of what is written the place of the first and the setting of the last
of each key. -/
structure Collects (written : List (String × Setting)) (properties : List Node) : Prop where
  keys : properties.map propertyKey? = (written.map Prod.fst).eraseDups.map some
  distinct : (properties.map propertyKey?).Nodup
  last : ∀ n ∈ properties, ∃ key setting, n.setting? = some (key, setting) ∧
    lastSetting written key = some setting

/-! ## Settings from tokens -/

/-- What the first entry gives, if anything, comes first. -/
theorem filterMap_cons_toList {α β : Type} (f : α → Option β) (a : α) (as : List α) :
    (a :: as).filterMap f = (f a).toList ++ as.filterMap f := by
  cases h : f a <;> simp [h]

/-- A token in front of a closing bracket gives an item, if it is one. -/
theorem Setting.itemsIn_cons {token : Token} (rest : List Token)
    (hclose : token ≠ .mark .closeBracket) :
    itemsIn (token :: rest) = (Item.ofToken? token).toList ++ itemsIn rest := by
  rw [itemsIn, List.takeWhile_cons_of_pos (by simpa using hclose), filterMap_cons_toList]
  rfl

/-- A closing bracket ends the items. -/
theorem Setting.itemsIn_closeBracket (rest : List Token) :
    itemsIn (.mark .closeBracket :: rest) = [] := by
  simp [itemsIn]

/-- A token that is no key in front of a colon sets nothing. -/
theorem settings_cons {token : Token} {rest : List Token} (hclose : token ≠ .mark .closeBrace)
    (hkey : ∀ key, token = .identifier key → rest.head? ≠ some (.mark .colon)) :
    settings (token :: rest) = settings rest := by
  rw [settings.eq_def]
  split <;> simp_all

namespace TokenStream

variable {s s' : TokenStream} {token : Token}

/-- The token that is taken is the first of those that a stream offers. -/
theorem Takes.tokens_eq (h : s.Takes token s') : s.tokens = token :: s'.tokens := by
  rw [tokens, h.pending_eq, ← h.1]
  rfl

/-- Line ends set nothing. -/
theorem Skips.settings_eq (h : s.Skips s') : settings s.tokens = settings s'.tokens := by
  induction h with
  | done => rfl
  | more newline _ ih => rw [newline.tokens_eq, settings_cons (by simp) (by simp), ih]

/-- Line ends are no items. -/
theorem Skips.itemsIn_eq (h : s.Skips s') :
    Setting.itemsIn s.tokens = Setting.itemsIn s'.tokens := by
  induction h with
  | done => rfl
  | more newline _ ih =>
    rw [newline.tokens_eq, Setting.itemsIn_cons _ (by simp), ih]
    rfl

end TokenStream

namespace Grammar

open Node (propertyKey?_of_setting? map_propertyKey?)

section
variable {s s₁ s' : TokenStream}

/-- Behind an item of an array stands no colon. -/
theorem head?_tokens_ne_colon {mark : Mark} (skip : s.Skips s₁) (take : s₁.Takes (.mark mark) s')
    (hmark : mark ≠ .colon) : s.tokens.head? ≠ some (.mark .colon) := by
  cases skip with
  | done => simpa [take.tokens_eq] using hmark
  | more newline => simp [newline.tokens_eq]

/-- An item is a token that sets nothing. -/
theorem ReadsItem.settings_eq {n : Node} (h : ReadsItem s n s')
    (hcolon : s'.tokens.head? ≠ some (.mark .colon)) : settings s.tokens = settings s'.tokens := by
  cases h with
  | text take | name take =>
    rw [take.tokens_eq]
    exact settings_cons (by simp) fun _ _ => hcolon

/-- The items of an array set nothing by themselves. -/
theorem ReadsItems.settings_eq {ns : List Node} (h : ReadsItems s ns s') :
    settings s.tokens = settings s'.tokens := by
  induction h with
  | close skip right => rw [skip.settings_eq, right.tokens_eq, settings_cons (by simp) (by simp)]
  | last skip item skip' right =>
    rw [skip.settings_eq, item.settings_eq (head?_tokens_ne_colon skip' right (by simp)),
      skip'.settings_eq, right.tokens_eq, settings_cons (by simp) (by simp)]
  | comma skip item skip' comma _ ih =>
    rw [skip.settings_eq, item.settings_eq (head?_tokens_ne_colon skip' comma (by simp)),
      skip'.settings_eq, comma.tokens_eq, settings_cons (by simp) (by simp), ih]

/-- An item that is read is the first of the items. -/
theorem ReadsItem.itemsIn_eq {n : Node} (h : ReadsItem s n s') :
    Setting.itemsIn s.tokens = n.item?.toList ++ Setting.itemsIn s'.tokens := by
  cases h with
  | text take | name take =>
    rw [take.tokens_eq, Setting.itemsIn_cons _ (by simp)]
    rfl

/-- The items that are read are those that are written. -/
theorem ReadsItems.itemsIn_eq {ns : List Node} (h : ReadsItems s ns s') :
    Setting.itemsIn s.tokens = ns.filterMap Node.item? := by
  induction h with
  | close skip right =>
    rw [skip.itemsIn_eq, right.tokens_eq, Setting.itemsIn_closeBracket, List.filterMap_nil]
  | last skip item skip' right =>
    rw [skip.itemsIn_eq, item.itemsIn_eq, skip'.itemsIn_eq, right.tokens_eq,
      Setting.itemsIn_closeBracket, filterMap_cons_toList, List.filterMap_nil]
  | comma skip item skip' comma _ ih =>
    rw [skip.itemsIn_eq, item.itemsIn_eq, skip'.itemsIn_eq, comma.tokens_eq,
      Setting.itemsIn_cons _ (by simp), ih, filterMap_cons_toList]
    rfl

/-- The value of a property is the setting in front of its tokens, and holds no other. -/
theorem ReadsValue.exists_setting {value : PropertyValue} (h : ReadsValue s value s') :
    ∃ setting, Setting.ofTokens? s.tokens = some setting ∧ settings s.tokens = settings s'.tokens ∧
      ∀ o key, (value.toNode o key).setting? = some (key, setting) := by
  cases h with
  | text take | boolean take | integer take =>
    rw [take.tokens_eq, settings_cons (by simp) (by simp)]
    exact ⟨_, rfl, rfl, fun _ _ => rfl⟩
  | array left read =>
    rw [left.tokens_eq, settings_cons (by simp) (by simp), read.settings_eq]
    refine ⟨_, rfl, rfl, fun o key => ?_⟩
    rw [read.itemsIn_eq]
    rfl

/-- A property that is put in its place is a setting that is put in its place. -/
theorem map_setting?_putProperty {before after : List Node} {line : Nat} {key : String}
    {value : PropertyValue} {setting : Setting} {kept : List (String × Setting)}
    (hbefore : before.map Node.setting? = kept.map some) (hdistinct : (kept.map Prod.fst).Nodup)
    (hvalue : ∀ o, (value.toNode o key).setting? = some (key, setting))
    (put : putProperty before line key value s = .ok after s') :
    after.map Node.setting? = (Keyed.put Prod.fst (key, setting) kept).map some := by
  have hkeys := map_propertyKey? hbefore
  have hnodup : (before.map propertyKey?).Nodup := by
    rw [hkeys]
    exact hdistinct.map (Option.some_injective _)
  rcases putProperty_cases hnodup put with ⟨hnew, rfl, -⟩ | ⟨front, p, behind, rfl, hkey, rfl, -⟩
  · have hnew' : key ∉ kept.map Prod.fst := by
      rw [hkeys] at hnew
      exact fun hmem => hnew (List.mem_map_of_mem hmem)
    rw [Keyed.put_of_not_mem hnew', List.map_append, List.map_append, hbefore,
      List.map_singleton, hvalue]
    rfl
  · rw [List.map_append, List.map_cons] at hbefore
    obtain ⟨keptFront, keptRest, rfl, hfront, hrest⟩ := List.map_eq_append_iff.1 hbefore.symm
    obtain ⟨old, keptBehind, rfl, hold, hbehind⟩ := List.map_eq_cons_iff.1 hrest
    have hold' : old.1 = key := by
      rw [propertyKey?_of_setting? hold.symm] at hkey
      exact Option.some.inj hkey
    rw [List.map_append, List.map_cons, hold'] at hdistinct
    have hnew : key ∉ keptFront.map Prod.fst := fun hmem =>
      (List.nodup_append.1 hdistinct).2.2 key hmem key (.head _) rfl
    rw [Keyed.put_append_cons keptBehind hnew hold', List.map_append, List.map_append, hfront,
      List.map_cons, List.map_cons, hvalue, hbehind]

/-- A property is read from one setting, which is put in its place. -/
theorem ReadsProperty.exists_setting {before after : List Node}
    (h : ReadsProperty before s after s') {kept : List (String × Setting)}
    (hbefore : before.map Node.setting? = kept.map some) (hdistinct : (kept.map Prod.fst).Nodup) :
    ∃ entry, settings s.tokens = entry :: settings s'.tokens ∧
      after.map Node.setting? = (Keyed.put Prod.fst entry kept).map some := by
  obtain ⟨name, colon, read, put⟩ := h
  rename_i s₁ s₂ s₃ key value
  obtain ⟨setting, hsetting, hrest, hvalue⟩ := read.exists_setting
  have hstream : s'.tokens = s₃.tokens := by
    rcases putProperty_ok put with rfl | rfl <;> rfl
  refine ⟨(key, setting), ?_,
    map_setting?_putProperty hbefore hdistinct (fun o => hvalue o key) put⟩
  rw [name.tokens_eq, colon.tokens_eq, settings, hsetting, hrest, hstream]
  rfl

/-- The settings of properties are put in their places one after the other. -/
theorem ReadsProperties.map_setting? {before after : List Node}
    (h : ReadsProperties before s after s') {kept : List (String × Setting)}
    (hbefore : before.map Node.setting? = kept.map some) (hdistinct : (kept.map Prod.fst).Nodup) :
    after.map Node.setting? =
      ((settings s.tokens).foldl
        (fun kept entry => Keyed.put Prod.fst entry kept) kept).map some := by
  induction h generalizing kept with
  | close skip right =>
    rw [skip.settings_eq, right.tokens_eq, settings]
    exact hbefore
  | comma skip property comma _ ih =>
    obtain ⟨entry, hsettings, hnow⟩ := property.exists_setting hbefore hdistinct
    rw [skip.settings_eq, hsettings, comma.tokens_eq, settings_cons (by simp) (by simp)]
    exact ih hnow (Keyed.nodup_put hdistinct entry)
  | line skip property _ _ ih =>
    obtain ⟨entry, hsettings, hnow⟩ := property.exists_setting hbefore hdistinct
    rw [skip.settings_eq, hsettings]
    exact ih hnow (Keyed.nodup_put hdistinct entry)

/-- What is read as properties has the settings of its tokens, each at the first place of its key
and the last of it. -/
theorem properties_setting? {ps : List Node} (hs : s.Ended) (h : properties s = .ok ps s') :
    ps.map Node.setting? = (Keyed.putAll Prod.fst (settings s.tokens)).map some := by
  obtain ⟨-, read⟩ := Parse.foldAlong_ok nextProperty?_none nextProperty?_some hs h
  have hnone : ([] : List Node).map Node.setting? = ([] : List (String × Setting)).map some := rfl
  exact read.map_setting? hnone .nil

end

end Grammar

/-- Properties with the settings that are put in one after the other collect what is written. -/
theorem collects_of_settings {written : List (String × Setting)} {properties : List Node}
    (h : properties.map Node.setting? = (Keyed.putAll Prod.fst written).map some) :
    Collects written properties := by
  have hkeys := Node.map_propertyKey? h
  refine ⟨?_, ?_, fun n hn => ?_⟩
  · rw [hkeys, Keyed.map_putAll]
  · rw [hkeys]
    exact (Keyed.nodup_putAll written).map (Option.some_injective _)
  · have hmem : n.setting? ∈ (Keyed.putAll Prod.fst written).map some := h ▸ List.mem_map_of_mem hn
    obtain ⟨⟨key, setting⟩, hkept, hsetting⟩ := List.mem_map.1 hmem
    refine ⟨key, setting, hsetting.symm, ?_⟩
    have hfound := Keyed.find?_of_mem (Keyed.nodup_putAll written) hkept
    rw [Keyed.find?_putAll] at hfound
    rw [lastSetting, hfound]
    rfl

/-! ## Applying settings -/

/-- The value of an item. -/
def Setting.Item.value (scopes : Scopes) : Item → Except RuntimeFault Value
  | text content => .ok (.string content)
  | name word => scopes.value word

/-- The option that a value is, if it is a text that is not empty. -/
def Value.option? : Value → Option String
  | .string content => if content = "" then none else some content
  | _ => none

/-- The options that items stand for. -/
def Setting.options (scopes : Scopes) (items : List Item) : Except RuntimeFault (List String) := do
  return (← items.mapM (Item.value scopes)).filterMap Value.option?

/-- What settings make of the properties of `field` that are set already, where each key has one
setting at most. -/
def FieldProperties.overlaid (p : FieldProperties) (scopes : Scopes) (field : String)
    (setting? : String → Option Setting) : Except RuntimeFault FieldProperties := do
  let options ← match setting? "options" with
    | some (.items items) => Setting.options scopes items
    | some _ => .error (.badProperty field "options" "must be an array")
    | none => .ok p.options
  return {
    label := ((setting? "label").bind Setting.text?).getD p.label
    required := ((setting? "required").bind Setting.truth?).getD p.required
    placeholder := ((setting? "placeholder").bind Setting.text?).getD p.placeholder
    options }

/-- The result without the line of an error. -/
def unlocated {α : Type} : Except RuntimeError α → Except RuntimeFault α :=
  Except.mapError Located.fault

/-- Two steps without the lines of their errors are both without them. -/
theorem unlocated_bind {α β : Type} (x : Except RuntimeError α) (f : α → Except RuntimeError β) :
    unlocated (x >>= f) = unlocated x >>= fun a => unlocated (f a) := by
  cases x <;> rfl

/-- A fault at a line, without the line, is the fault. -/
theorem unlocated_locate {α : Type} (line : Nat) (x : Except RuntimeFault α) :
    unlocated (locate line x) = x := by
  cases x <;> rfl

namespace Setting

/-- The option of the first item, if it is one, comes first. -/
theorem options_cons (scopes : Scopes) (item : Item) (items : List Item) :
    options scopes (item :: items) = do
      let v ← item.value scopes
      let rest ← options scopes items
      return v.option?.toList ++ rest := by
  unfold options
  rw [List.mapM_cons]
  cases item.value scopes with
  | error fault => rfl
  | ok v =>
    cases items.mapM (Item.value scopes) with
    | error fault => rfl
    | ok vs => exact congrArg Except.ok (filterMap_cons_toList Value.option? v vs)

end Setting

/-- The items of an array are looked up in their order, and those that are no options are left
out. -/
theorem unlocated_resolveOptions (scopes : Scopes) (ns : List Node) :
    unlocated (resolveOptions scopes ns) = Setting.options scopes (ns.filterMap Node.item?) := by
  induction ns with
  | nil => rfl
  | cons n ns ih =>
    -- The rest of the array, behind an item that stands for the given text.
    have hrest : ∀ option, unlocated (do
        let options ← resolveOptions scopes ns
        return if option = "" then options else option :: options) = do
          let rest ← Setting.options scopes (ns.filterMap Node.item?)
          return (Value.string option).option?.toList ++ rest := by
      intro option
      rw [unlocated_bind, ih, Value.option?]
      by_cases hempty : option = ""
      · simp only [hempty, if_true]
        rfl
      · simp only [hempty, if_false]
        rfl
    rw [resolveOptions, unlocated_bind, filterMap_cons_toList]
    cases n with
    | str o content =>
      rw [Node.item?, Option.toList_some, List.singleton_append, Setting.options_cons]
      exact hrest content
    | ident o name =>
      rw [Node.item?, Option.toList_some, List.singleton_append, Setting.options_cons,
        resolveOption, unlocated_bind, unlocated_locate, Setting.Item.value]
      cases scopes.value name with
      | error fault => rfl
      | ok v =>
        cases v with
        | string content => exact hrest content
        | int | bool => exact hrest ""
    | _ => exact (hrest "").trans (bind_pure (Setting.options scopes (ns.filterMap Node.item?)))

namespace FieldProperties

variable {scopes : Scopes} {field : String} {p : FieldProperties}
  {setting? setting?' : String → Option Setting}

/-- Only the settings of the known keys count. -/
theorem overlaid_congr
    (h : ∀ key ∈ ["label", "placeholder", "required", "options"], setting? key = setting?' key) :
    p.overlaid scopes field setting? = p.overlaid scopes field setting?' := by
  simp only [List.forall_mem_cons] at h
  obtain ⟨hlabel, hplaceholder, hrequired, hoptions, -⟩ := h
  simp only [overlaid, hlabel, hplaceholder, hrequired, hoptions]

/-- A setting that says nothing about a known key changes nothing about it. -/
theorem getD_update {α : Type} {key : String} {setting : Setting} (hkey : setting? key = none)
    {view? : Setting → Option α} {known : String} (hview : key = known → view? setting = none)
    (default : α) :
    ((Function.update setting? key (some setting) known).bind view?).getD default =
      ((setting? known).bind view?).getD default := by
  by_cases hknown : key = known
  · subst hknown
    simp [hkey, hview rfl]
  · rw [Function.update_of_ne (Ne.symm hknown)]

/-- A setting that is not of the sort its key asks for changes nothing. -/
theorem overlaid_update {key : String} {setting : Setting} (hkey : setting? key = none)
    (hoptions : key ≠ "options") (hlabel : key = "label" → setting.text? = none)
    (hplaceholder : key = "placeholder" → setting.text? = none)
    (hrequired : key = "required" → setting.truth? = none) :
    p.overlaid scopes field (Function.update setting? key (some setting)) =
      p.overlaid scopes field setting? := by
  simp only [overlaid, getD_update hkey hlabel, getD_update hkey hplaceholder,
    getD_update hkey hrequired, Function.update_of_ne (Ne.symm hoptions)]

end FieldProperties

open FieldProperties (overlaid_update) in
/-- A property does what its setting says of those that come behind, if they leave its key alone. -/
theorem applyProperty_overlaid {scopes : Scopes} {n : Node} {key : String} {setting : Setting}
    (hn : n.setting? = some (key, setting)) {setting? : String → Option Setting}
    (hkey : setting? key = none) (field : String) (p : FieldProperties) :
    (do
      let effect ← unlocated (applyProperty scopes field p n)
      (effect.getD p).overlaid scopes field setting?) =
    p.overlaid scopes field (Function.update setting? key (some setting)) := by
  unfold applyProperty
  split
  · rename_i items
    cases hn
    rw [unlocated_bind, unlocated_resolveOptions]
    cases hoptions : Setting.options scopes (items.filterMap Node.item?) with
    | error fault =>
      simp only [FieldProperties.overlaid, Function.update_self, hoptions]
      rfl
    | ok options =>
      change FieldProperties.overlaid { p with options } scopes field setting? = _
      simp [FieldProperties.overlaid, hoptions, hkey]
  · rename_i value
    cases value with
    | str | bool | int =>
      cases hn
      simp only [FieldProperties.overlaid, Function.update_self]
      rfl
    | _ => cases hn
  · rename_i label
    cases hn
    change FieldProperties.overlaid { p with label } scopes field setting? = _
    simp [FieldProperties.overlaid, Setting.text?, hkey]
  · rename_i placeholder
    cases hn
    change FieldProperties.overlaid { p with placeholder } scopes field setting? = _
    simp [FieldProperties.overlaid, Setting.text?, hkey]
  · rename_i required
    cases hn
    change FieldProperties.overlaid { p with required } scopes field setting? = _
    simp [FieldProperties.overlaid, Setting.truth?, hkey]
  · -- A single value under another key, or of another sort than its key asks for.
    rename_i value hoptions hlabel hplaceholder hrequired
    cases value with
    | str o text =>
      cases hn
      exact (overlaid_update hkey hoptions (fun hk => (hlabel o text hk rfl).elim)
        (fun hk => (hplaceholder o text hk rfl).elim) fun _ => rfl).symm
    | bool o b =>
      cases hn
      exact (overlaid_update hkey hoptions (fun _ => rfl) (fun _ => rfl) fun hk =>
        (hrequired o b hk rfl).elim).symm
    | int =>
      cases hn
      exact (overlaid_update hkey hoptions (fun _ => rfl) (fun _ => rfl) fun _ => rfl).symm
    | _ => cases hn
  · rename_i hoptions
    cases hn
    exact (overlaid_update hkey hoptions (fun _ => rfl) (fun _ => rfl) fun _ => rfl).symm
  · rename_i hscalar harray
    cases n with
    | scalar o key value => exact (hscalar o key value rfl).elim
    | array o key items => exact (harray o key items rfl).elim
    | _ => cases hn

/-- The setting of a key among those that were kept. -/
def settingIn (kept : List (String × Setting)) (key : String) : Option Setting :=
  (Keyed.find? Prod.fst key kept).map Prod.snd

/-- The first entry is the setting of its key. -/
theorem settingIn_cons (entry : String × Setting) (kept : List (String × Setting)) :
    settingIn (entry :: kept) = Function.update (settingIn kept) entry.1 (some entry.2) := by
  funext key
  by_cases hkey : entry.1 = key
  · subst hkey
    simp [settingIn, Keyed.find?]
  · simp [settingIn, Keyed.find?, hkey, Function.update_of_ne (Ne.symm hkey)]

/-- A key that was not kept has no setting. -/
theorem settingIn_eq_none {key : String} {kept : List (String × Setting)}
    (h : key ∉ kept.map Prod.fst) : settingIn kept key = none := by
  rw [settingIn, Option.map_eq_none_iff, Keyed.find?, List.find?_eq_none]
  intro entry hentry hkey
  exact h (of_decide_eq_true hkey ▸ List.mem_map_of_mem hentry)

/-- Of the settings of a key, the last one is kept. -/
theorem settingIn_putAll (written : List (String × Setting)) :
    settingIn (Keyed.putAll Prod.fst written) = lastSetting written := by
  funext key
  rw [settingIn, Keyed.find?_putAll]
  rfl

namespace Run

/-- A computation gives a result, up to the line of an error and to the machine that it leaves. -/
def Gives {α : Type} (x : Run α) (m : Machine) : Except RuntimeFault α → Prop
  | .ok a => ∃ m', x m = .ok a m'
  | .error fault => ∃ e m', x m = .error (.error e) m' ∧ e.fault = fault

/-- Computations that do the same give the same. -/
theorem Gives.of_eq {α : Type} {x y : Run α} {m m' : Machine} {r : Except RuntimeFault α}
    (hy : Gives y m' r) (h : x m = y m') : Gives x m r := by
  cases r <;> simpa only [Gives, h] using hy

/-- What two computations give one behind the other is given by what each gives. -/
theorem Gives.bind {α β : Type} {x : Run α} {f : α → Run β} {m : Machine}
    {r : Except RuntimeFault α} {g : α → Except RuntimeFault β} (hx : Gives x m r)
    (hf : ∀ a m', Gives (f a) m' (g a)) : Gives (x >>= f) m (r >>= g) := by
  cases r with
  | ok a =>
    obtain ⟨m', hx⟩ := hx
    exact (hf a m').of_eq (by rw [bind_run, hx])
  | error fault =>
    obtain ⟨e, m', hx, hfault⟩ := hx
    exact ⟨e, m', by rw [bind_run, hx], hfault⟩

/-- The first property is applied before the others, or ignored with a report. -/
theorem applyProperties_cons (kind : FieldKind) (field : String) (n : Node) (rest : List Node)
    (p : FieldProperties) (m : Machine) :
    applyProperties kind field (n :: rest) p m =
      match applyProperty m.scopes field p n with
      | .error e => .error (.error e) m
      | .ok (some p) => applyProperties kind field rest p m
      | .ok none =>
        applyProperties kind field rest p
          { m with log := m.log.record (.propertyIgnored field n.key kind) } := by
  rw [applyProperties, bind_run]
  change (ofExcept (applyProperty m.scopes field p n) >>= _) m = _
  rw [bind_run]
  cases applyProperty m.scopes field p n with
  | error e => rfl
  | ok effect => cases effect <;> rfl

/-- Properties with different keys do what their settings say together. -/
theorem applyProperties_gives {ps : List Node} {kept : List (String × Setting)}
    (hps : ps.map Node.setting? = kept.map some) (hdistinct : (kept.map Prod.fst).Nodup)
    (kind : FieldKind) (field : String) (p : FieldProperties) (m : Machine) :
    Gives (applyProperties kind field ps p) m (p.overlaid m.scopes field (settingIn kept)) := by
  induction ps generalizing kept p m with
  | nil =>
    cases kept with
    | nil => exact ⟨m, rfl⟩
    | cons => cases hps
  | cons n ps ih =>
    cases kept with
    | nil => cases hps
    | cons entry kept =>
      obtain ⟨hn, hps⟩ := List.cons.inj hps
      rw [List.map_cons, List.nodup_cons] at hdistinct
      rw [settingIn_cons, ← applyProperty_overlaid hn (settingIn_eq_none hdistinct.1)]
      have hrest := ih hps hdistinct.2
      have hrun := applyProperties_cons kind field n ps p m
      cases happly : applyProperty m.scopes field p n with
      | error e => exact ⟨e, m, by rw [hrun, happly], rfl⟩
      | ok effect =>
        cases effect with
        | some p' => exact (hrest p' m).of_eq (by rw [hrun, happly])
        | none =>
          have hlogged := hrest p { m with log := m.log.record (.propertyIgnored field n.key kind) }
          exact hlogged.of_eq (by rw [hrun, happly])

/-- A field is resolved from its settings and refused if its name is taken. -/
theorem addField_gives {ps : List Node} {kept : List (String × Setting)}
    (hps : ps.map Node.setting? = kept.map some) (hdistinct : (kept.map Prod.fst).Nodup)
    (form : String) (pass : Option Nat) (line : Nat) (kind : FieldKind) (name : String)
    (fields : FieldList) (m : Machine) :
    Gives (addField form pass line kind name ps fields) m (do
      let p ← FieldProperties.default.overlaid m.scopes (suffixed name pass) (settingIn kept)
      match fields.push? ⟨kind, suffixed name pass, p⟩ with
      | some fields => return fields
      | none => .error (.duplicateField form (suffixed name pass))) := by
  refine (applyProperties_gives hps hdistinct kind (suffixed name pass) .default m).bind fun p m' =>
    ?_
  cases fields.push? ⟨kind, suffixed name pass, p⟩ with
  | some fields' => exact ⟨m', rfl⟩
  | none => exact ⟨_, m', rfl, rfl⟩

end Run

open Run in
/-- Whatever keys are written in whatever order and however often: a list of properties has each key
once, in the order in which they first come, with the last setting of it. A field gets its
properties from the last settings of the four known keys, or is refused for the options among them,
so two lists in which these are the same make the same field or fail with the same fault, wherever
they stand. -/
theorem properties_determined_by_last_settings {s s' : TokenStream} {ps : List Node} (hs : s.Ended)
    (hread : Grammar.properties s = .ok ps s') :
    Collects (settings s.tokens) ps ∧
    (∀ kind field m, Gives (applyProperties kind field ps .default) m
      (FieldProperties.default.overlaid m.scopes field (lastSetting (settings s.tokens)))) ∧
    ∀ t t' qs, t.Ended → Grammar.properties t = .ok qs t' →
      (∀ key ∈ ["label", "placeholder", "required", "options"],
        lastSetting (settings s.tokens) key = lastSetting (settings t.tokens) key) →
      ∀ kind name m m', m.scopes = m'.scopes →
        (∃ r, Gives (applyProperties kind name ps .default) m r ∧
          Gives (applyProperties kind name qs .default) m' r) ∧
        ∀ form pass line line' fields, ∃ r,
          Gives (addField form pass line kind name ps fields) m r ∧
          Gives (addField form pass line' kind name qs fields) m' r := by
  have hps := Grammar.properties_setting? hs hread
  have hdistinct : ((Keyed.putAll Prod.fst (settings s.tokens)).map Prod.fst).Nodup :=
    Keyed.nodup_putAll _
  refine ⟨collects_of_settings hps, ?_, ?_⟩
  · intro kind field m
    rw [← settingIn_putAll]
    exact applyProperties_gives hps hdistinct kind field .default m
  · intro t t' qs ht hread' hsame kind name m m' hscopes
    have hqs := Grammar.properties_setting? ht hread'
    have hdistinct' : ((Keyed.putAll Prod.fst (settings t.tokens)).map Prod.fst).Nodup :=
      Keyed.nodup_putAll _
    rw [← settingIn_putAll, ← settingIn_putAll] at hsame
    constructor
    · refine ⟨_, applyProperties_gives hps hdistinct kind name .default m, ?_⟩
      rw [FieldProperties.overlaid_congr hsame, hscopes]
      exact applyProperties_gives hqs hdistinct' kind name .default m'
    · intro form pass line line' fields
      refine ⟨_, addField_gives hps hdistinct form pass line kind name fields m, ?_⟩
      rw [FieldProperties.overlaid_congr hsame, hscopes]
      exact addField_gives hqs hdistinct' form pass line' kind name fields m'

namespace Sample

/-- The stream over tokens, with the end of input behind them. -/
def offering (first : Token) (rest : List Token) : TokenStream :=
  ⟨⟨first, 1, 0, 0⟩, (rest ++ [Token.endOfInput]).map fun token => .ok ⟨token, 1, 0, 0⟩, 0, 0⟩

/-- The stream over tokens comes to the end of input. -/
theorem offering_ended (first : Token) (rest : List Token) : (offering first rest).Ended := by
  refine ⟨(first :: rest).map fun token => .ok ⟨token, 1, 0, 0⟩, ⟨.endOfInput, 1, 0, 0⟩, ?_, rfl⟩
  simp [offering, TokenStream.pending]

/-- A label that is a number first and a text then, options with an empty one and a variable, and an
unknown key. -/
def labelledTwice : TokenStream :=
  offering (.identifier "label") [.mark .colon, .integer 1, .mark .comma,
    .identifier "options", .mark .colon, .mark .openBracket, .text "x", .mark .comma,
    .text "", .mark .comma, .identifier "v", .mark .closeBracket, .mark .comma,
    .identifier "label", .mark .colon, .text "Name", .mark .comma,
    .identifier "hint", .mark .colon, .boolean true, .mark .closeBrace]

/-- The same label and options at last, in the other order. -/
def optionsTwice : TokenStream :=
  offering (.identifier "options") [.mark .colon, .text "none", .newline,
    .identifier "label", .mark .colon, .text "Name", .newline,
    .identifier "options", .mark .colon, .mark .openBracket, .text "x", .mark .comma,
    .text "", .mark .comma, .identifier "v", .mark .comma, .mark .closeBracket,
    .mark .closeBrace]

/-- A parser whose properties are counted has succeeded. -/
theorem exists_of_length {r : EStateM.Result ParseError TokenStream (List Node)} {k : Nat}
    (h : (match r with | .ok ps _ => some ps.length | .error _ _ => none) = some k) :
    ∃ ps s', r = .ok ps s' ∧ ps.length = k := by
  cases r with
  | ok ps s' => exact ⟨ps, s', rfl, Option.some.inj h⟩
  | error => cases h

/-- A machine with a variable for an option. -/
def optionBound : Machine :=
  { Machine.start .unbounded .off with scopes := ⟨⟨[("v", ⟨.string, some (.string "y")⟩)]⟩, []⟩ }

end Sample

open Run Sample in
/-- The field gets the label `Name` and the options `x` and `y` from both lists. -/
theorem properties_determined_by_last_settings_twice :
    ∃ ps s' qs t', Grammar.properties labelledTwice = .ok ps s' ∧ ps.length = 3 ∧
      Grammar.properties optionsTwice = .ok qs t' ∧ qs.length = 2 ∧
      Gives (applyProperties .select "a" ps .default) optionBound
        (.ok ⟨"Name", false, "", ["x", "y"]⟩) ∧
      ∃ r, Gives (addField "f" none 1 .select "a" ps .empty) optionBound r ∧
        Gives (addField "f" none 2 .select "a" qs .empty) optionBound r := by
  obtain ⟨ps, s', hread, hlength⟩ : ∃ ps s', Grammar.properties labelledTwice = .ok ps s' ∧
    ps.length = 3 :=
    exists_of_length (by decide +kernel)
  obtain ⟨qs, t', hread', hlength'⟩ : ∃ qs t', Grammar.properties optionsTwice = .ok qs t' ∧
    qs.length = 2 :=
    exists_of_length (by decide +kernel)
  have hsame : ∀ key ∈ ["label", "placeholder", "required", "options"],
      lastSetting (settings labelledTwice.tokens) key =
        lastSetting (settings optionsTwice.tokens) key := by
    decide +kernel
  obtain ⟨-, hgives, hdetermined⟩ :=
    properties_determined_by_last_settings (offering_ended _ _) hread
  have hfields :=
    hdetermined optionsTwice t' qs (offering_ended _ _) hread' hsame .select "a" optionBound
    optionBound rfl
  have hlast := hgives .select "a" optionBound
  exact ⟨ps, s', qs, t', hread, hlength, hread', hlength', hlast, hfields.2 "f" none 1 2 .empty⟩

end FormScript
