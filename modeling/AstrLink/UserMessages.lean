import Mathlib.Data.List.Induction
import AstrLink.RequestItems

/-!
The user messages that a request's history holds. `inspectFields` walks the
history once, counts the messages that are the user's and keeps a digest for each
of the newest ones. `digests_line_up` says which message each digest belongs to.
-/
namespace AstrLink.UserMessages
open JsonTree (Json)
open VisibleWords (visibleText truncateBytes)
open Turns (clampCursorValue maxCursorRunes)
open RequestItems List

structure Policy where
  minFingerprintRunes : Int
  maxInboundEchoIDs : Int
  maxUserTextBytes : Int
  maxContinuationUsers : Int
  entropyCheck : Option (Text → Bool)
  stripLeadingThink : Bool
  /-- Only a user message that opens a turn counts; the rest of its run are notes. -/
  notesFollowPrompt : Bool

structure RequestSummary extends Turns.RequestSummary where
  protocol : Protocol
  lastUserText : Text
  firstUserText : Text

def echoIDPrefixes : List String :=
  ["chatcmpl-tool-", "srvtoolu_", "mcptoolu_", "toolu_", "call_", "fc_", "msg_", "rs_", "ts_"]

/-- Whether an id looks like a random one and not like a number in a sequence. -/
def hasCursorEntropy (id : Text) : Bool :=
  let id := Normalizing.trimSpace id
  let vendor := (echoIDPrefixes.map String.toList).find? (·.isPrefixOf id)
  let body := id.drop (vendor.getD []).length
  decide (8 ≤ id.length) && decide (id.length ≤ maxCursorRunes) &&
    id.all (fun letter => !(decide (letter.toNat ≤ 0x20) || letter.toNat == 0x7F)) && decide (8 ≤ body.length) &&
    !body.all Char.isDigit && decide (4 ≤ body.eraseDups.length)

namespace Policy
variable (policy : Policy)

def limitOr (limit : Int) (default : Nat) : Nat := if limit > 0 then limit.toNat else default

def maxInboundLimit : Nat := limitOr policy.maxInboundEchoIDs 32

def maxUserTextLimit : Nat := limitOr policy.maxUserTextBytes 4096

def maxContinuationLimit : Nat := limitOr policy.maxContinuationUsers 32

def minFingerprintLimit : Nat := limitOr policy.minFingerprintRunes 32

def check : Text → Bool := policy.entropyCheck.getD hasCursorEntropy

/-- The newest ids, from the end of the history on, each once. -/
def selectFrom (selected : List Text) : List Text → List Text
  | [] => selected
  | id :: ids =>
    if policy.maxInboundLimit ≤ selected.length then selected
    else
      let value := clampCursorValue id
      if value = [] || !policy.check value || selected.contains value then selectFrom selected ids
      else selectFrom (selected ++ [value]) ids

def selectInboundEchoIDs (ids : List Text) : List Text := policy.selectFrom [] ids.reverse

end Policy

/-! ### The walk over a history -/

def utf8 (text : Text) : List UInt8 := text.flatMap String.utf8EncodeChar

def digestText (outside : Outside) (text : Text) : List UInt8 :=
  ((Normalizing.feed false [utf8 text]).digest outside.sha256).getD []

def nonEmptyArray (json : Option Json) : Bool := ((array? json).getD []).length > 0

/-- Whether the body declares tools at the top level. -/
def offersTools (fields : Fields) : Bool := ["tools", "functions"].any fun name => nonEmptyArray (member? fields name)

structure Walk where
  userTurnCount : Nat := 0
  firstUserText : Text := []
  shownUserText : Text := []
  lastUserText : Text := []
  /-- For each of the newest counted messages the newest user text at or before it. -/
  userTexts : List Text := []
  echoIDs : List Text := []
  lastAssistant : Option Json := none
  hasTools : Bool := false
  /-- Whether the next user message would open a turn. -/
  opensTurn : Bool := true

/-- A text added at the end of a list that holds at most so many. -/
def keepNewest (limit : Nat) (texts : List Text) (text : Text) : List Text :=
  if texts.length = limit then texts.drop 1 ++ [text] else texts ++ [text]

/-- Whether an item counts as the user's, and whether the next user message would open a turn. -/
def turnOf (policy : Policy) (opensTurn : Bool) (inspected : RequestItem) : Bool × Bool :=
  if policy.notesFollowPrompt then
    if inspected.toolResult then (false, false)
    else if inspected.assistant then (inspected.user, true)
    else if inspected.user then (opensTurn, false)
    else (inspected.user, opensTurn)
  else (inspected.user, opensTurn)

def Walk.count (policy : Policy) (limit : Nat) (walk : Walk) (text : Text) : Walk :=
  let walk := { walk with userTurnCount := walk.userTurnCount + 1 }
  let walk := if text = [] then walk
    else
      { walk with
        firstUserText :=
          if walk.firstUserText = [] then truncateBytes policy.maxUserTextLimit text else walk.firstUserText
        shownUserText := truncateBytes policy.maxUserTextLimit text
        lastUserText := text }
  if walk.lastUserText = [] then walk
  else { walk with userTexts := keepNewest limit walk.userTexts walk.lastUserText }

def Walk.next (outside : Outside) (policy : Policy) (protocol : Protocol) (limit : Nat) (walk : Walk) (item : Json) : Walk :=
  let inspected := protocol.inspectItem outside item
  let (user, opensTurn) := turnOf policy walk.opensTurn inspected
  let counted := if user then walk.count policy limit inspected.userText else walk
  { counted with
    hasTools := walk.hasTools || inspected.declaresTools
    opensTurn := opensTurn
    echoIDs := walk.echoIDs ++ inspected.echoIDs
    lastAssistant := if inspected.assistant then some item else walk.lastAssistant }

/-- A text that comes again keeps its digest. -/
def digestAfter (outside : Outside) (before : Option (Text × List UInt8)) (text : Text) : List UInt8 :=
  match before with
  | some (previous, digest) => if text = previous then digest else digestText outside text
  | none => digestText outside text

def digestsOf (outside : Outside) (lastDigest : List UInt8) (before : Option (Text × List UInt8)) :
    List Text → List (List UInt8)
  | [] => []
  | text :: rest =>
    if rest = [] then [lastDigest]
    else
      let digest := digestAfter outside before text
      digest :: digestsOf outside lastDigest (some (text, digest)) rest

def assistantDigest (outside : Outside) (policy : Policy) (protocol : Protocol) (lastAssistant : Option Json) : List UInt8 :=
  match lastAssistant with
  | none => []
  | some item =>
    let normalizer := Normalizing.feed policy.stripLeadingThink [utf8 ((protocol.assistantText item).getD [])]
    if policy.minFingerprintLimit ≤ normalizer.runesSoFar then (normalizer.digest outside.sha256).getD [] else []

def inspectFields (outside : Outside) (policy : Policy) (protocol : Protocol) (fields : Fields) : RequestSummary :=
  let summary : RequestSummary :=
    { protocol, sessionCursor := [], explicitCursors := outside.explicitCursors protocol fields
      stateful := protocol.isStateful fields, echoIDs := [], userTurnCount := 0, hasUserMessage := false
      assistantDigest := [], lastUserDigest := [], userDigests := [], hasTools := offersTools fields, sideCall := false
      lastUserText := [], firstUserText := [] }
  match member? fields protocol.historyField with
  | some (.string text) =>
    let visible := visibleText text
    if visible = [] then summary
    else
      let shown := truncateBytes policy.maxUserTextLimit visible
      let digest := digestText outside visible
      { summary with
        userTurnCount := 1, hasUserMessage := true, lastUserText := shown, firstUserText := shown
        lastUserDigest := digest, userDigests := if summary.stateful then [] else [digest] }
  | some (.array items) =>
    let limit := min items.length policy.maxContinuationLimit
    let walk := items.foldl (Walk.next outside policy protocol limit) { hasTools := summary.hasTools }
    let lastUserDigest := if walk.lastUserText = [] then [] else digestText outside walk.lastUserText
    { summary with
      hasTools := walk.hasTools
      userTurnCount := walk.userTurnCount
      hasUserMessage := decide (walk.userTurnCount > 0)
      lastUserText := walk.shownUserText
      firstUserText := walk.firstUserText
      lastUserDigest := lastUserDigest
      userDigests := if summary.stateful then [] else digestsOf outside lastUserDigest none walk.userTexts
      echoIDs := policy.selectInboundEchoIDs walk.echoIDs
      assistantDigest := assistantDigest outside policy protocol walk.lastAssistant }
  | _ => summary

def inspectBody (outside : Outside) (policy : Policy) (protocol : Protocol) : Json → Option RequestSummary
  | .object fields => some (inspectFields outside policy protocol fields)
  | _ => none

section
variable (policy : Policy) (protocol : Protocol)

/-- Whether a user message behind some items would open a turn. -/
def opensAfter (prior : List Json) : Bool :=
  match prior.reverse.find? fun item =>
    protocol.isToolResult item || (protocol.assistantText item).isSome || protocol.isUserTurn item with
  | none => true
  | some item => !protocol.isToolResult item && (protocol.assistantText item).isSome

def counts (prior : List Json) (item : Json) : Bool :=
  protocol.isUserTurn item &&
    (!policy.notesFollowPrompt || !protocol.isToolResult item && opensAfter protocol prior)

/-- The messages of a history that count. -/
def countedItems (items : List Json) : List Json :=
  (items.zipIdx.filter fun entry => counts policy protocol (items.take entry.2) entry.1).map (·.1)

/-- The visible texts of the messages that count, empty where a message has none. -/
def countedTexts (fields : Fields) : List Text :=
  match member? fields protocol.historyField with
  | some (.string text) => [visibleText text].filter (· ≠ [])
  | some (.array items) => (countedItems policy protocol items).map protocol.userText
  | _ => []

end

def newestText (texts : List Text) : Option Text := texts.reverse.find? (· ≠ [])

/-! ### Newest texts in a window -/

theorem newestText_snoc (texts : List Text) (text : Text) :
    newestText (texts ++ [text]) = if text = [] then newestText texts else some text := by
  rw [newestText, reverse_append, reverse_singleton, singleton_append, find?_cons]
  by_cases empty : text = []
  · simp [empty, newestText]
  · simp [empty]

variable {texts : List Text}

theorem newestText_none : newestText texts = none ↔ texts.dropWhile (· = []) = [] := by
  induction texts with
  | nil => simp [newestText]
  | cons text texts ih =>
    rw [dropWhile_cons]
    by_cases empty : text = []
    · rw [if_pos (decide_eq_true empty), ← ih]
      simp [newestText, empty]
    · rw [if_neg (by simpa using empty)]
      simp [newestText, empty]

structure Window (limit : Nat) (texts kept : List Text) : Prop where
  size : kept.length = min limit (texts.dropWhile (· = [])).length
  lines : ∀ place < kept.length, kept[place]? = newestText (texts.take (texts.length - kept.length + place + 1))

variable {text : Text}

namespace Window
variable {limit : Nat} {texts kept : List Text}

theorem nothing (limit : Nat) : Window limit [] [] := by
  constructor
  · simp
  · intro place inside
    cases inside

theorem bounded (window : Window limit texts kept) : kept.length ≤ texts.length := by
  have most := window.size
  have inside : (texts.dropWhile (· = [])).length ≤ texts.length := (dropWhile_sublist _).length_le
  omega

theorem silent (window : Window limit texts kept) (none_yet : newestText (texts ++ [text]) = none) :
    Window limit (texts ++ [text]) kept := by
  have empty := newestText_none.mp none_yet
  have before : newestText texts = none := by
    rw [newestText_snoc] at none_yet
    split at none_yet
    · exact none_yet
    · cases none_yet
  have no_kept : kept.length = 0 := by
    rw [window.size, newestText_none.mp before]
    simp
  constructor
  · rw [no_kept, empty]
    simp
  · intro place inside
    omega

theorem texts_snoc {newest : Text} (found : newestText (texts ++ [text]) = some newest) :
    ((texts ++ [text]).dropWhile (· = [])).length = (texts.dropWhile (· = [])).length + 1 := by
  rw [dropWhile_append]
  split
  · next empty =>
    have before := newestText_none.mpr (List.isEmpty_iff.mp empty)
    have some_text : text ≠ [] := by
      rintro rfl
      rw [newestText_snoc, if_pos rfl, before] at found
      cases found
    rw [List.isEmpty_iff.mp empty, dropWhile_cons, if_neg (by simpa using some_text)]
    rfl
  · rw [length_append]
    rfl

theorem add (window : Window limit texts kept) {newest : Text} (some_room : 0 < limit)
    (found : newestText (texts ++ [text]) = some newest) :
    Window limit (texts ++ [text]) (keepNewest limit kept newest) := by
  have size := window.size
  have grown := texts_snoc found
  have bounded := window.bounded
  have whole : newestText ((texts ++ [text]).take (texts.length + 1)) = some newest := by
    rw [take_of_length_le (by simp)]
    exact found
  by_cases full : kept.length = limit
  · have next : keepNewest limit kept newest = kept.drop 1 ++ [newest] := if_pos full
    have length : (keepNewest limit kept newest).length = limit := by
      rw [next, length_append, length_drop, length_singleton]
      omega
    constructor
    · rw [length, grown]
      omega
    · intro place inside
      rw [length] at inside ⊢
      rw [next, length_append, length_singleton]
      by_cases last : place + 1 = limit
      · rw [getElem?_append_right (by rw [length_drop]; omega), length_drop,
          show place - (kept.length - 1) = 0 by omega, show texts.length + 1 - limit + place + 1 = texts.length + 1 by omega,
          whole]
        rfl
      · rw [getElem?_append_left (by rw [length_drop]; omega), getElem?_drop,
          window.lines (1 + place) (by omega), take_append_of_le_length (by omega)]
        congr 2
        omega
  · have next : keepNewest limit kept newest = kept ++ [newest] := if_neg full
    have length : (keepNewest limit kept newest).length = kept.length + 1 := by
      rw [next, length_append, length_singleton]
    constructor
    · rw [length, grown]
      omega
    · intro place inside
      rw [length] at inside ⊢
      rw [next, length_append, length_singleton]
      by_cases last : place = kept.length
      · rw [last, getElem?_append_right (Nat.le_refl _), Nat.sub_self,
          show texts.length + 1 - (kept.length + 1) + kept.length + 1 = texts.length + 1 by omega, whole]
        rfl
      · rw [getElem?_append_left (by omega), window.lines place (by omega),
          take_append_of_le_length (by omega)]
        congr 2
        omega

end Window

/-! ### What a walk has counted -/

variable {limit : Nat}

section
variable {policy : Policy} {protocol : Protocol} {outside : Outside}

theorem countedItems_snoc (items : List Json) (item : Json) :
    countedItems policy protocol (items ++ [item]) =
      countedItems policy protocol items ++ if counts policy protocol items item then [item] else [] := by
  have front : items.zipIdx.filter (fun entry => counts policy protocol ((items ++ [item]).take entry.2) entry.1) =
      items.zipIdx.filter fun entry => counts policy protocol (items.take entry.2) entry.1 := by
    apply filter_congr
    intro entry listed
    have inside := snd_lt_of_mem_zipIdx listed
    rw [take_append_of_le_length (by omega)]
  rw [countedItems, zipIdx_append, filter_append, map_append, front]
  congr 1
  show ((List.filter _ [(item, 0 + items.length)]).map _) = _
  rw [Nat.zero_add, filter_singleton, take_left]
  cases counts policy protocol items item <;> rfl

theorem opensAfter_snoc (items : List Json) (item : Json) :
    opensAfter protocol (items ++ [item]) =
      if protocol.isToolResult item || (protocol.assistantText item).isSome || protocol.isUserTurn item then
        !protocol.isToolResult item && (protocol.assistantText item).isSome
      else opensAfter protocol items := by
  rw [opensAfter, reverse_append, reverse_singleton, singleton_append, find?_cons]
  split
  · next spoken =>
    split at spoken
    · cases spoken
    · next quiet =>
      rw [quiet, opensAfter, spoken]
      rfl
  · next other spoken =>
    split at spoken
    · next speaks =>
      cases spoken
      rw [if_pos speaks]
    · next quiet =>
      rw [quiet, opensAfter, spoken]
      rfl

theorem isUserTurn_assistant {item : Json} (assistant : (protocol.assistantText item).isSome = true) :
    protocol.isUserTurn item = false := by
  have apart {role : Text} (said : role = "assistant".toList ∨ role = "model".toList) (more : Bool) :
      (decide (role = "user".toList) && more) = false := by
    have other : role ≠ "user".toList := by
      rcases said with rfl | rfl
      · decide
      · decide
    rw [decide_eq_false other, Bool.false_and]
  cases item with
  | object message =>
    cases protocol with
    | openAIChat =>
      simp only [Protocol.assistantText, OpenAIChat.assistantText] at assistant
      split at assistant
      · next said => exact apart (.inl said) _
      · cases assistant
    | openAIResponses =>
      simp only [Protocol.assistantText, OpenAIResponses.assistantText] at assistant
      split at assistant
      · next said =>
        have role := of_decide_eq_true (Bool.and_eq_true_iff.mp said).1
        show ((decide _ && _) && _) = false
        rw [apart (.inl role), Bool.false_and]
      · cases assistant
    | anthropicMessages =>
      simp only [Protocol.assistantText, Anthropic.assistantText] at assistant
      split at assistant
      · next said => exact apart (.inl said) _
      · cases assistant
    | geminiGenerateContent =>
      simp only [Protocol.assistantText, Gemini.assistantText] at assistant
      split at assistant
      · next said => exact apart (.inr said) _
      · cases assistant
  | _ => cases protocol <;> rfl

theorem turnOf_counts (outside : Outside) {items : List Json} (item : Json) {opensTurn : Bool}
    (opens : policy.notesFollowPrompt = true → opensTurn = opensAfter protocol items) :
    (turnOf policy opensTurn (protocol.inspectItem outside item)).1 = counts policy protocol items item ∧
      (policy.notesFollowPrompt = true →
        (turnOf policy opensTurn (protocol.inspectItem outside item)).2 = opensAfter protocol (items ++ [item])) := by
  rw [turnOf, inspectItem_toolResult, inspectItem_assistant, inspectItem_user, counts, opensAfter_snoc]
  cases notes : policy.notesFollowPrompt with
  | false => simp
  | true =>
    rw [opens notes]
    cases tool : protocol.isToolResult item with
    | true => simp
    | false =>
      cases assistant : (protocol.assistantText item).isSome with
      | true => simp [isUserTurn_assistant assistant]
      | false => cases user : protocol.isUserTurn item <;> simp

/-- The texts of a history's messages that count. -/
def textsOf (policy : Policy) (protocol : Protocol) (items : List Json) : List Text :=
  (countedItems policy protocol items).map protocol.userText

theorem textsOf_snoc (policy : Policy) (protocol : Protocol) (items : List Json) (item : Json) :
    textsOf policy protocol (items ++ [item]) =
      textsOf policy protocol items ++ if counts policy protocol items item then [protocol.userText item] else [] := by
  rw [textsOf, countedItems_snoc, map_append]
  split <;> rfl

structure Walked (policy : Policy) (protocol : Protocol) (limit : Nat) (items : List Json) (walk : Walk) : Prop where
  counted : walk.userTurnCount = (textsOf policy protocol items).length
  newest : walk.lastUserText = (newestText (textsOf policy protocol items)).getD []
  window : Window limit (textsOf policy protocol items) walk.userTexts
  opens : policy.notesFollowPrompt = true → walk.opensTurn = opensAfter protocol items

theorem newestText_some (found : newestText texts = some text) : text ≠ [] := by
  simpa using find?_some found

theorem newestText_last {last : Text} (newest : last = (newestText texts).getD []) :
    (last = [] → newestText texts = none) ∧ (last ≠ [] → newestText texts = some last) := by
  cases found : newestText texts with
  | none => exact ⟨fun _ => rfl, fun some_text => absurd (newest.trans (by rw [found]; rfl)) some_text⟩
  | some text =>
    rw [found] at newest
    obtain rfl : last = text := newest
    exact ⟨fun empty => absurd empty (newestText_some found), fun _ => rfl⟩

theorem count_window (policy : Policy) {walk : Walk} (some_room : 0 < limit)
    (newest : walk.lastUserText = (newestText texts).getD []) (window : Window limit texts walk.userTexts)
    (text : Text) :
    (walk.count policy limit text).lastUserText = (newestText (texts ++ [text])).getD [] ∧
      Window limit (texts ++ [text]) (walk.count policy limit text).userTexts := by
  by_cases empty : text = []
  · have same : newestText (texts ++ [text]) = newestText texts := by rw [newestText_snoc, if_pos empty]
    obtain ⟨absent, there⟩ := newestText_last newest
    simp only [Walk.count, if_pos empty]
    split
    · next none_yet =>
      refine ⟨by rw [same]; exact newest, window.silent ?_⟩
      rw [same]
      exact absent none_yet
    · next some_text =>
      refine ⟨by rw [same]; exact newest, window.add some_room ?_⟩
      rw [same]
      exact there some_text
  · have found : newestText (texts ++ [text]) = some text := by rw [newestText_snoc, if_neg empty]
    simp only [Walk.count, if_neg empty]
    exact ⟨by rw [found]; rfl, window.add some_room found⟩

theorem count_userTurnCount (policy : Policy) (limit : Nat) (walk : Walk) (text : Text) :
    (walk.count policy limit text).userTurnCount = walk.userTurnCount + 1 := by
  simp only [Walk.count]
  split
  · split <;> rfl
  · split <;> rfl

theorem next_walked {items : List Json} {walk : Walk} (some_room : 0 < limit)
    (walked : Walked policy protocol limit items walk) (item : Json) :
    Walked policy protocol limit (items ++ [item]) (walk.next outside policy protocol limit item) := by
  obtain ⟨turns, opens⟩ := turnOf_counts outside item walked.opens
  have texts := textsOf_snoc policy protocol items item
  cases user : counts policy protocol items item with
  | false =>
    rw [user] at turns texts
    have texts : textsOf policy protocol (items ++ [item]) = textsOf policy protocol items := by simpa using texts
    constructor
    case counted => simpa [Walk.next, turns, texts] using walked.counted
    case newest => simpa [Walk.next, turns, texts] using walked.newest
    case window => simpa [Walk.next, turns, texts] using walked.window
    case opens => exact opens
  | true =>
    rw [user] at turns texts
    have texts : textsOf policy protocol (items ++ [item]) = textsOf policy protocol items ++ [protocol.userText item] :=
      texts
    obtain ⟨newest, window⟩ := count_window policy some_room walked.newest walked.window (protocol.userText item)
    constructor
    case counted => simp [Walk.next, turns, texts, count_userTurnCount, walked.counted]
    case newest => simpa [Walk.next, turns, texts, inspectItem_userText] using newest
    case window => simpa [Walk.next, turns, texts, inspectItem_userText] using window
    case opens => exact opens

theorem fold_walked (outside : Outside) (items : List Json) (some_room : items ≠ [] → 0 < limit) (hasTools : Bool) :
    Walked policy protocol limit items
      (items.foldl (Walk.next outside policy protocol limit) { hasTools := hasTools }) := by
  induction items using List.reverseRecOn with
  | nil => exact ⟨rfl, rfl, Window.nothing limit, fun _ => rfl⟩
  | append_singleton items item ih =>
    have some_room := some_room (by simp)
    rw [foldl_append]
    exact next_walked some_room (ih fun _ => some_room) item

end

/-! ### The digests -/

section
variable (outside : Outside) (policy : Policy) (protocol : Protocol)

theorem digestsOf_eq {lastDigest : List UInt8} {before : Option (Text × List UInt8)}
    (known : ∀ previous digest, before = some (previous, digest) → digest = digestText outside previous)
    (last : ∀ text, texts.getLast? = some text → lastDigest = digestText outside text) :
    digestsOf outside lastDigest before texts = texts.map (digestText outside) := by
  induction texts generalizing before with
  | nil => rfl
  | cons text rest ih =>
    rw [digestsOf]
    split
    · next ends =>
      rw [ends, last text (by rw [ends]; rfl), map_singleton]
    · next more =>
      have first : digestAfter outside before text = digestText outside text := by
        rcases before with _ | ⟨previous, digest⟩
        · rfl
        · simp only [digestAfter]
          split
          · next same => rw [same, known previous digest rfl]
          · rfl
      dsimp only
      rw [first, map_cons, ih]
      · rintro previous digest same
        cases same
        rfl
      · intro final listed
        apply last final
        rw [getLast?_cons, listed]
        rfl

theorem Window.last {limit : Nat} {texts kept : List Text} (window : Window limit texts kept) {text : Text}
    (last : kept.getLast? = some text) : newestText texts = some text := by
  have bounded := window.bounded
  have positive : 0 < kept.length := length_pos_iff.mpr fun empty => by rw [empty] at last; cases last
  rw [getLast?_eq_getElem?, window.lines _ (by omega), take_of_length_le (by omega)] at last
  exact last

theorem Window.widen {size : Nat} {kept : List Text} (window : Window (min size limit) texts kept)
    (fits : texts.length ≤ size) : Window limit texts kept := by
  have inside : (texts.dropWhile (· = [])).length ≤ texts.length := (dropWhile_sublist _).length_le
  have size := window.size
  refine ⟨?_, window.lines⟩
  omega

theorem countedItems_user (items : List Json) :
    (countedItems policy protocol items).Sublist (items.filter protocol.isUserTurn) := by
  induction items using List.reverseRecOn with
  | nil => exact Sublist.refl _
  | append_singleton items item ih =>
    rw [countedItems_snoc, filter_append]
    refine ih.append ?_
    split
    · next counted =>
      rw [filter_singleton, (Bool.and_eq_true_iff.mp counted).1]
      exact Sublist.refl _
    · exact nil_sublist _

theorem countedItems_all (plain : policy.notesFollowPrompt = false) (items : List Json) :
    countedItems policy protocol items = items.filter protocol.isUserTurn := by
  induction items using List.reverseRecOn with
  | nil => rfl
  | append_singleton items item ih =>
    rw [countedItems_snoc, filter_append, ih, counts, plain, filter_singleton]
    cases protocol.isUserTurn item <;> rfl

/-- How many messages count, and a digest for each of the newest. -/
structure LinesUp (outside : Outside) (limit : Nat) (texts : List Text) (summary : RequestSummary) : Prop where
  counted : summary.userTurnCount = texts.length
  stateful : summary.stateful = true → summary.userDigests = []
  kept : summary.stateful = false → summary.userDigests.length = min limit (texts.dropWhile (· = [])).length
  lines : ∀ n, texts.length - summary.userDigests.length < n → n ≤ texts.length →
    ∃ text, newestText (texts.take n) = some text ∧
      summary.userDigests[n - 1 - (texts.length - summary.userDigests.length)]? = some (digestText outside text)

theorem Window.linesUp {kept : List Text} (window : Window limit texts kept) {summary : RequestSummary}
    (counted : summary.userTurnCount = texts.length)
    (digests : summary.userDigests = if summary.stateful then [] else kept.map (digestText outside)) :
    LinesUp outside limit texts summary := by
  cases stateful : summary.stateful with
  | true =>
    have none_kept : summary.userDigests = [] := by rw [digests, stateful]; rfl
    constructor
    case counted => exact counted
    case stateful => exact fun _ => none_kept
    case kept =>
      intro other
      cases stateful.symm.trans other
    case lines =>
      intro n later inside
      rw [none_kept, length_nil] at later
      omega
  | false =>
    have all_kept : summary.userDigests = kept.map (digestText outside) := by rw [digests, stateful]; rfl
    constructor
    case counted => exact counted
    case stateful =>
      intro other
      cases stateful.symm.trans other
    case kept =>
      intro _
      rw [all_kept, length_map]
      exact window.size
    case lines =>
      intro n later inside
      rw [all_kept, length_map] at later ⊢
      have bounded := window.bounded
      have place : n - 1 - (texts.length - kept.length) < kept.length := by omega
      have line := window.lines _ place
      have before : texts.length - kept.length + (n - 1 - (texts.length - kept.length)) + 1 = n := by omega
      rw [before, getElem?_eq_getElem place] at line
      refine ⟨_, line.symm, ?_⟩
      rw [getElem?_map, getElem?_eq_getElem place]
      rfl

theorem maxContinuationLimit_pos : 0 < policy.maxContinuationLimit := by
  rw [Policy.maxContinuationLimit, Policy.limitOr]
  split
  · omega
  · exact Nat.succ_pos _

theorem inspectFields_linesUp (fields : Fields) :
    LinesUp outside policy.maxContinuationLimit (countedTexts policy protocol fields)
      (inspectFields outside policy protocol fields) := by
  have some_room := maxContinuationLimit_pos policy
  have nothing : Window policy.maxContinuationLimit [] [] := Window.nothing _
  have blank : ([] : List (List UInt8)) = if protocol.isStateful fields then [] else [] := by split <;> rfl
  rw [inspectFields, countedTexts]
  dsimp only
  split
  · next text history =>
    split
    · next hidden =>
      rw [hidden]
      exact nothing.linesUp outside rfl blank
    · next some_text =>
      have one : [visibleText text].filter (· ≠ []) = [visibleText text] := by simp [some_text]
      have newest : newestText ([] ++ [visibleText text]) = some (visibleText text) := by
        rw [newestText_snoc, if_neg some_text]
      have kept : keepNewest policy.maxContinuationLimit [] (visibleText text) = [visibleText text] :=
        if_neg (Nat.ne_of_lt some_room)
      have window := nothing.add some_room newest
      rw [kept] at window
      rw [one]
      exact window.linesUp outside rfl rfl
  · next items history =>
    have room : items ≠ [] → 0 < min items.length policy.maxContinuationLimit := fun more =>
      Nat.lt_min.mpr ⟨length_pos_iff.mpr more, some_room⟩
    have walked : Walked policy protocol _ items _ := fold_walked outside items room (offersTools fields)
    have most : (textsOf policy protocol items).length ≤ items.length := by
      rw [textsOf, length_map]
      exact Nat.le_trans (countedItems_user policy protocol items).length_le (length_filter_le _ _)
    refine (walked.window.widen most).linesUp outside ?_ ?_
    · exact congrArg Int.ofNat walked.counted
    · dsimp only
      congr 1
      apply digestsOf_eq
      · intro previous digest other
        cases other
      · intro text last
        obtain ⟨absent, there⟩ := newestText_last walked.newest
        have newest := walked.window.last last
        split
        · next empty => cases newest.symm.trans (absent empty)
        · next some_text => rw [Option.some.inj (newest.symm.trans (there some_text))]
  · exact nothing.linesUp outside rfl blank

/-- The number of user messages is that of the messages a protocol counts as the user's, and the digests line up with
the last of them: each is the digest of the newest visible user text at its message or before it. Tool results and
blocks of the client are no such messages. -/
theorem digests_line_up (fields : Fields) :
    LinesUp outside policy.maxContinuationLimit (countedTexts policy protocol fields)
      (inspectFields outside policy protocol fields) ∧
    (∀ items, member? fields protocol.historyField = some (.array items) →
      countedTexts policy protocol fields = (countedItems policy protocol items).map protocol.userText ∧
      (countedItems policy protocol items).Sublist (items.filter protocol.isUserTurn) ∧
      (policy.notesFollowPrompt = false → countedItems policy protocol items = items.filter protocol.isUserTurn) ∧
      ∀ item ∈ countedItems policy protocol items, ¬ QuietItem protocol item) ∧
    ∀ text, member? fields protocol.historyField = some (.string text) → VisibleWords.Helpers text →
      countedTexts policy protocol fields = [] := by
  refine ⟨inspectFields_linesUp outside policy protocol fields, ?_, ?_⟩
  · intro items history
    refine ⟨?_, countedItems_user policy protocol items, fun plain => countedItems_all policy protocol plain items, ?_⟩
    · rw [countedTexts, history]
    · intro item counted quiet
      have user := (mem_filter.mp ((countedItems_user policy protocol items).mem counted)).2
      rw [isUserTurn_quiet quiet] at user
      cases user
  · intro text history helpers
    have hidden := VisibleWords.visibleText_helpers helpers
    rw [countedTexts, history]
    simp [hidden]

/-- Of three messages of a person the second is only a picture: it counts with the words before it. -/
example :
    let words (text : String) : Json := .object [("type".toList, .string "text".toList), ("text".toList, .string text.toList)]
    let said (role : String) (parts : List Json) : Json :=
      .object [("role".toList, .string role.toList), ("content".toList, .array parts)]
    countedTexts ⟨0, 0, 0, 0, none, true, false⟩ .anthropicMessages [("messages".toList, .array
      [said "user" [words "<skill>x</skill>first"], said "assistant" [words "yes"],
        said "user" [.object [("type".toList, .string "tool_result".toList)]],
        said "user" [.object [("type".toList, .string "image".toList)]],
        said "user" [words "<system-reminder>y</system-reminder>"], said "user" [words "last"]])] =
      ["first".toList, [], "last".toList] := by decide +kernel

end

end AstrLink.UserMessages
