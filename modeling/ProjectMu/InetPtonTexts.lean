import ProjectMu.InetPton6

/-!
# The texts that `inetPton6` takes

All texts of the standard form are taken for the address that they stand for. Besides, a colon can
stand behind the last group, and a gap between groups that fill the address without it.
-/

namespace ProjectMu.InetPton

open ByteCodec DigitText AddressText CrtWrapper

section Groups

variable {p text back front address' : List Byte} {ps fs bs : List (List Byte)}

theorem bind_map_eq_some_iff {α β γ : Type*} {x : Option α} {y : Option β} {f : α → β → γ}
    {c : γ} : (x.bind fun a => y.map (f a)) = some c ↔
      ∃ a b, x = some a ∧ y = some b ∧ f a b = c := by
  simp only [Option.bind_eq_some_iff, Option.map_eq_some_iff]
  constructor
  · rintro ⟨a, ha, b, hb, hc⟩
    exact ⟨a, b, ha, hb, hc⟩
  · rintro ⟨a, b, ha, hb, hc⟩
    exact ⟨a, ha, b, hb, hc⟩

theorem groups_cons_eq_some_iff : groups (p :: ps) = some back ↔
    ∃ w rest, group p = some w ∧ groups ps = some rest ∧ groupBytes w ++ rest = back := by
  rw [groups]
  exact bind_map_eq_some_iff

theorem mixedGroups_cons_eq_some_iff (hps : ps ≠ []) : mixedGroups (p :: ps) = some back ↔
    ∃ w rest, group p = some w ∧ mixedGroups ps = some rest ∧ groupBytes w ++ rest = back := by
  rw [mixedGroups]
  · exact bind_map_eq_some_iff
  · exact hps

theorem looseGroups_cons_eq_some_iff (hps : ps ≠ []) : looseGroups (p :: ps) = some back ↔
    ∃ w rest, group p = some w ∧ looseGroups ps = some rest ∧ groupBytes w ++ rest = back := by
  rw [looseGroups]
  · exact bind_map_eq_some_iff
  · exact hps

theorem group_ne_nil {w : ℕ} (h : group p = some w) : p ≠ [] := by
  rintro rfl
  cases h

theorem mixedGroups_singleton : mixedGroups [p] = some back ↔
    (∃ w, group p = some w ∧ groupBytes w = back) ∨ dottedQuad p = some back := by
  rw [mixedGroups, Option.or_eq_some_iff, Option.map_eq_some_iff, Option.map_eq_none_iff]
  apply or_congr_right
  exact and_iff_right_of_imp group_dottedQuad

theorem mixedGroups_of_groups (h : groups ps = some back) : mixedGroups ps = some back := by
  induction ps generalizing back with
  | nil => exact h
  | cons p ps ih =>
    obtain ⟨w, rest, hw, hrest, rfl⟩ := groups_cons_eq_some_iff.mp h
    cases ps with
    | nil =>
      obtain rfl := Option.some.inj hrest
      exact mixedGroups_singleton.mpr (Or.inl ⟨w, hw, (List.append_nil _).symm⟩)
    | cons p' ps =>
      exact (mixedGroups_cons_eq_some_iff (List.cons_ne_nil _ _)).mpr ⟨w, rest, hw, ih hrest, rfl⟩

/-- The groups hold digits and dots only. -/
theorem notMem_mixedGroups {c : Byte} (hhex : hexDigit c = none) (hdot : c ≠ dot)
    (h : mixedGroups ps = some back) : ∀ p ∈ ps, c ∉ p := by
  have hgroup {p : List Byte} {w : ℕ} (hw : group p = some w) : c ∉ p := by
    intro hmem
    obtain ⟨-, ds, hds, -⟩ := (number_eq_some_iff (by decide)).mp hw
    obtain ⟨d, hd⟩ := exists_of_mapM hds c hmem
    cases hd.symm.trans hhex
  induction ps generalizing back with
  | nil => simp
  | cons p ps ih =>
    rw [List.forall_mem_cons]
    cases ps with
    | nil =>
      refine ⟨?_, by simp⟩
      rcases mixedGroups_singleton.mp h with ⟨w, hw, -⟩ | hquad
      · exact hgroup hw
      · intro hmem
        rcases dottedQuad_characters hquad c hmem with heq | ⟨d, hd⟩
        · exact hdot heq
        · cases (hexDigit_of_decimalDigit hd).symm.trans hhex
    | cons p' ps =>
      obtain ⟨w, rest, hw, hrest, -⟩ := (mixedGroups_cons_eq_some_iff (List.cons_ne_nil _ _)).mp h
      exact ⟨hgroup hw, ih hrest⟩

theorem colon_notMem_mixedGroups (h : mixedGroups ps = some back) : ∀ p ∈ ps, colon ∉ p :=
  notMem_mixedGroups hexDigit_colon (by decide) h

theorem looseGroups_singleton (hne : p ≠ []) : looseGroups [p] = mixedGroups [p] := by
  rw [looseGroups, if_neg hne, mixedGroups]

/-- There are groups in the standard form, or hexadecimal ones and an empty piece behind them. -/
theorem looseGroups_eq_some_iff (hps : ps ≠ []) : looseGroups ps = some back ↔
    (ps = [[]] ∧ back = []) ∨ mixedGroups ps = some back ∨
      ∃ bs, bs ≠ [] ∧ groups bs = some back ∧ ps = bs ++ [[]] := by
  have hsingle (bs : List (List Byte)) (hbs : bs ≠ []) (p : List Byte) : [p] ≠ bs ++ [[]] := by
    intro h
    have hlength := congrArg List.length h
    have hpos := List.length_pos_iff.mpr hbs
    rw [List.length_append, List.length_singleton, List.length_singleton] at hlength
    omega
  induction ps generalizing back with
  | nil => exact absurd rfl hps
  | cons p ps ih =>
    cases ps with
    | nil =>
      by_cases hnil : p = []
      · subst hnil
        constructor
        · intro h
          exact Or.inl ⟨rfl, (Option.some.inj h).symm⟩
        · rintro (⟨-, rfl⟩ | hmixed | ⟨bs, hbs, -, heq⟩)
          · rfl
          · cases hmixed
          · exact absurd heq (hsingle bs hbs [])
      · rw [looseGroups_singleton hnil]
        constructor
        · intro h
          exact Or.inr (Or.inl h)
        · rintro (⟨heq, -⟩ | hmixed | ⟨bs, hbs, -, heq⟩)
          · exact absurd (List.singleton_inj.mp heq) hnil
          · exact hmixed
          · exact absurd heq (hsingle bs hbs p)
    | cons p' ps =>
      rw [looseGroups_cons_eq_some_iff (List.cons_ne_nil _ _),
        mixedGroups_cons_eq_some_iff (List.cons_ne_nil _ _)]
      constructor
      · rintro ⟨w, rest, hw, hrest, rfl⟩
        rcases (ih (List.cons_ne_nil _ _)).mp hrest with ⟨heq, rfl⟩ | hmixed | ⟨bs, hbs, hgroups, heq⟩
        · refine Or.inr (Or.inr ⟨[p], List.cons_ne_nil _ _, ?_, by rw [heq, List.singleton_append]⟩)
          exact groups_cons_eq_some_iff.mpr ⟨w, [], hw, rfl, rfl⟩
        · exact Or.inr (Or.inl ⟨w, rest, hw, hmixed, rfl⟩)
        · refine Or.inr (Or.inr ⟨p :: bs, List.cons_ne_nil _ _, ?_, by rw [heq, List.cons_append]⟩)
          exact groups_cons_eq_some_iff.mpr ⟨w, rest, hw, hgroups, rfl⟩
      · rintro (⟨heq, -⟩ | ⟨w, rest, hw, hmixed, hback⟩ | ⟨bs, hbs, hgroups, heq⟩)
        · cases heq
        · exact ⟨w, rest, hw, (ih (List.cons_ne_nil _ _)).mpr (Or.inr (Or.inl hmixed)), hback⟩
        · obtain ⟨b, bs, rfl⟩ := List.exists_cons_of_ne_nil hbs
          obtain ⟨w, rest, hw, hrest, hback⟩ := groups_cons_eq_some_iff.mp hgroups
          rw [List.cons_append] at heq
          obtain ⟨rfl, htail⟩ := List.cons.inj heq
          refine ⟨w, rest, hw, (ih (List.cons_ne_nil _ _)).mpr ?_, hback⟩
          by_cases hbs' : bs = []
          · subst hbs'
            exact Or.inl ⟨htail, (Option.some.inj hrest).symm⟩
          · exact Or.inr (Or.inr ⟨bs, hbs', hrest, htail⟩)

/-- What the code takes for the groups at the end of an address: those of the standard form, or
hexadecimal ones with a colon behind. -/
def Behind (text back : List Byte) : Prop :=
  (∃ bs, mixedGroups bs = some back ∧ text = joined bs) ∨
    ∃ bs, bs ≠ [] ∧ groups bs = some back ∧ text = joined bs ++ [colon]

theorem joined_concat_nil (hps : ps ≠ []) : joined (ps ++ [[]]) = joined ps ++ [colon] := by
  induction ps with
  | nil => exact absurd rfl hps
  | cons p ps ih =>
    cases ps with
    | nil =>
      have hjoined : joined [p] = p := List.intercalate_singleton
      rw [hjoined, List.singleton_append, joined_cons (List.cons_ne_nil _ _)]
      rfl
    | cons p' ps =>
      rw [List.cons_append, joined_cons (by simp), ih (List.cons_ne_nil _ _),
        joined_cons (List.cons_ne_nil _ _), List.append_assoc, List.cons_append]

theorem splitOn_joined (hps : ps ≠ []) (hcolon : ∀ p ∈ ps, colon ∉ p) :
    (joined ps).splitOn colon = ps :=
  List.splitOn_intercalate colon hcolon hps

theorem colon_notMem_groups (h : groups ps = some back) : ∀ p ∈ ps, colon ∉ p :=
  colon_notMem_mixedGroups (mixedGroups_of_groups h)

theorem looseGroups_splitOn : looseGroups (text.splitOn colon) = some back ↔ Behind text back := by
  have hjoined : joined (text.splitOn colon) = text := List.intercalate_splitOn colon
  rw [looseGroups_eq_some_iff (List.splitOn_ne_nil _ _)]
  constructor
  · rintro (⟨heq, rfl⟩ | hmixed | ⟨bs, hbs, hgroups, heq⟩)
    · refine Or.inl ⟨[], rfl, ?_⟩
      rw [← hjoined, heq]
      rfl
    · exact Or.inl ⟨_, hmixed, hjoined.symm⟩
    · refine Or.inr ⟨bs, hbs, hgroups, ?_⟩
      rw [← hjoined, heq, joined_concat_nil hbs]
  · rintro (⟨bs, hmixed, rfl⟩ | ⟨bs, hbs, hgroups, rfl⟩)
    · by_cases hbs : bs = []
      · subst hbs
        exact Or.inl ⟨rfl, (Option.some.inj hmixed).symm⟩
      · rw [splitOn_joined hbs (colon_notMem_mixedGroups hmixed)]
        exact Or.inr (Or.inl hmixed)
    · refine Or.inr (Or.inr ⟨bs, hbs, hgroups, ?_⟩)
      rw [← joined_concat_nil hbs, splitOn_joined (by simp)]
      intro p hp
      rcases List.mem_append.mp hp with hmem | hmem
      · exact colon_notMem_groups hgroups p hmem
      · rw [List.mem_singleton.mp hmem]
        exact List.not_mem_nil

theorem address_gap_eq_some_iff (hps : ps ≠ []) :
    address front ([] :: ps) = some address' ↔
      ∃ back, looseGroups ps = some back ∧ front.length + back.length ≤ nsIn6addrsz ∧
        placed front back = address' := by
  rw [address, if_pos rfl]
  · simp only [Option.bind_eq_some_iff, Option.ite_none_right_eq_some, Option.some.injEq]
  · exact hps

theorem address_group_eq_some_iff (hps : ps ≠ []) (hp : p ≠ []) :
    address front (p :: ps) = some address' ↔
      ∃ w, group p = some w ∧ front.length + nsInt16sz ≤ nsIn6addrsz ∧
        address (front ++ groupBytes w) ps = some address' := by
  rw [address, if_neg hp]
  · simp only [Option.bind_eq_some_iff, Option.ite_none_right_eq_some]
  · exact hps

/-- What the pieces behind the bytes of `front` give: groups for the whole address, or groups in
front of a gap and behind it. -/
@[mk_iff]
inductive Gives (front : List Byte) : List (List Byte) → List Byte → Prop
  | whole {ps more} (h : looseGroups ps = some more)
      (hlength : (front ++ more).length = nsIn6addrsz) : Gives front ps (front ++ more)
  | gap {fs bs first back} (hbs : bs ≠ []) (hfirst : groups fs = some first)
      (hback : looseGroups bs = some back)
      (hroom : (front ++ first).length + back.length ≤ nsIn6addrsz) :
      Gives front (fs ++ [] :: bs) (placed (front ++ first) back)

theorem gives_singleton : Gives front [p] address' ↔
    ∃ more, looseGroups [p] = some more ∧ (front ++ more).length = nsIn6addrsz ∧
      front ++ more = address' := by
  constructor
  · intro h
    generalize hps : [p] = ps at h
    cases h with
    | whole h hlength => exact ⟨_, h, hlength, rfl⟩
    | gap hbs =>
      have hlength := congrArg List.length hps
      have hpos := List.length_pos_iff.mpr hbs
      simp only [List.length_append, List.length_cons, List.length_nil] at hlength
      omega
  · rintro ⟨more, h, hlength, rfl⟩
    exact Gives.whole h hlength

theorem gives_gap (hps : ps ≠ []) : Gives front ([] :: ps) address' ↔
    ∃ back, looseGroups ps = some back ∧ front.length + back.length ≤ nsIn6addrsz ∧
      placed front back = address' := by
  constructor
  · intro h
    generalize hcons : [] :: ps = pieces at h
    cases h with
    | whole h =>
      subst hcons
      obtain ⟨w, -, hw, -⟩ := (looseGroups_cons_eq_some_iff hps).mp h
      cases hw
    | @gap fs bs first back hbs hfirst hback hroom =>
      cases fs with
      | nil =>
        obtain rfl := Option.some.inj hfirst
        obtain rfl := (List.cons.inj hcons).2
        rw [List.append_nil] at hroom ⊢
        exact ⟨back, hback, hroom, rfl⟩
      | cons f fs =>
        obtain ⟨w, -, hw, -⟩ := groups_cons_eq_some_iff.mp hfirst
        exact absurd (List.cons.inj hcons).1.symm (group_ne_nil hw)
  · rintro ⟨back, hback, hroom, rfl⟩
    have hgap := @Gives.gap front [] ps [] back hps rfl hback
    rw [List.append_nil] at hgap
    exact hgap hroom

theorem gives_group (hps : ps ≠ []) (hp : p ≠ []) : Gives front (p :: ps) address' ↔
    ∃ w, group p = some w ∧ front.length + nsInt16sz ≤ nsIn6addrsz ∧
      Gives (front ++ groupBytes w) ps address' := by
  constructor
  · intro h
    generalize hcons : p :: ps = pieces at h
    cases h with
    | whole h hlength =>
      subst hcons
      obtain ⟨w, rest, hw, hrest, rfl⟩ := (looseGroups_cons_eq_some_iff hps).mp h
      rw [← List.append_assoc] at hlength ⊢
      refine ⟨w, hw, ?_, Gives.whole hrest hlength⟩
      rw [List.length_append, List.length_append, length_groupBytes] at hlength
      omega
    | @gap fs bs first back hbs hfirst hback hroom =>
      cases fs with
      | nil => exact absurd (List.cons.inj hcons).1 hp
      | cons f fs =>
        obtain ⟨rfl, rfl⟩ := List.cons.inj hcons
        obtain ⟨w, rest, hw, hrest, rfl⟩ := groups_cons_eq_some_iff.mp hfirst
        rw [← List.append_assoc] at hroom ⊢
        refine ⟨w, hw, ?_, Gives.gap hbs hrest hback hroom⟩
        rw [List.length_append, List.length_append, length_groupBytes] at hroom
        omega
  · rintro ⟨w, hw, -, h⟩
    cases h with
    | whole hmore hlength =>
      rw [List.append_assoc] at hlength ⊢
      exact Gives.whole ((looseGroups_cons_eq_some_iff hps).mpr ⟨w, _, hw, hmore, rfl⟩) hlength
    | gap hbs hfirst hback hroom =>
      rw [List.append_assoc] at hroom ⊢
      rw [← List.cons_append]
      exact Gives.gap hbs (groups_cons_eq_some_iff.mpr ⟨w, _, hw, hfirst, rfl⟩) hback hroom

theorem address_eq_some_iff (hps : ps ≠ []) :
    address front ps = some address' ↔ Gives front ps address' := by
  induction ps generalizing front with
  | nil => exact absurd rfl hps
  | cons p ps ih =>
    cases ps with
    | nil =>
      rw [gives_singleton, address]
      simp only [Option.bind_eq_some_iff, Option.ite_none_right_eq_some, Option.some.injEq]
    | cons p' ps =>
      have hne := List.cons_ne_nil p' ps
      by_cases hnil : p = []
      · subst hnil
        rw [address_gap_eq_some_iff hne, gives_gap hne]
      · rw [address_group_eq_some_iff hne hnil, gives_group hne hnil]
        simp only [ih hne]

/-- The text of groups does not begin with a colon. -/
theorem head_joined (hp : p ≠ []) (hcolon : colon ∉ p) (rest : List Byte) :
    (joined (p :: ps) ++ rest).head? ≠ some colon := by
  obtain ⟨c, p, rfl⟩ := List.exists_cons_of_ne_nil hp
  have hc : c ≠ colon := fun h => hcolon (h ▸ List.mem_cons_self)
  have hhead : (joined ((c :: p) :: ps) ++ rest).head? = some c := by
    cases ps with
    | nil => rw [show joined [c :: p] = c :: p from List.intercalate_singleton]; rfl
    | cons p' ps => rw [joined_cons (List.cons_ne_nil _ _)]; rfl
  rw [hhead]
  exact fun h => hc (Option.some.inj h)

theorem colon_notMem_group {w : ℕ} (h : group p = some w) : colon ∉ p :=
  colon_notMem_mixedGroups (mixedGroups_singleton.mpr (Or.inl ⟨w, h, rfl⟩)) p List.mem_cons_self

theorem head_joined_groups (hps : ps ≠ []) (h : groups ps = some back) (rest : List Byte) :
    (joined ps ++ rest).head? ≠ some colon := by
  obtain ⟨p, ps, rfl⟩ := List.exists_cons_of_ne_nil hps
  obtain ⟨w, more, hw, -, -⟩ := groups_cons_eq_some_iff.mp h
  exact head_joined (group_ne_nil hw) (colon_notMem_group hw) rest

theorem head_joined_mixedGroups (h : mixedGroups ps = some back) :
    (joined ps).head? ≠ some colon := by
  have hcolon := colon_notMem_mixedGroups h
  rw [← List.append_nil (joined ps)]
  cases ps with
  | nil => exact Option.some_ne_none _ ∘ Eq.symm
  | cons p ps =>
    rw [List.forall_mem_cons] at hcolon
    refine head_joined ?_ hcolon.1 []
    rintro rfl
    cases ps with
    | nil => cases h
    | cons p' ps =>
      obtain ⟨w, rest, hw, -, -⟩ := (mixedGroups_cons_eq_some_iff (List.cons_ne_nil _ _)).mp h
      cases hw

theorem Behind.head (h : Behind text back) : text.head? ≠ some colon := by
  rcases h with ⟨bs, hmixed, rfl⟩ | ⟨bs, hbs, hgroups, rfl⟩
  · exact head_joined_mixedGroups hmixed
  · exact head_joined_groups hbs hgroups [colon]

theorem splitOn_colon (rest : List Byte) :
    (colon :: rest).splitOn colon = [] :: rest.splitOn colon := by
  rw [List.splitOn_cons_eq_if_modifyHead]
  exact if_pos (beq_self_eq_true colon)

theorem splitOn_gap (hfs : fs ≠ []) (hcolon : ∀ p ∈ fs, colon ∉ p) (rest : List Byte) :
    (joined fs ++ colon :: colon :: rest).splitOn colon = fs ++ [] :: rest.splitOn colon := by
  rw [List.splitOn_append_cons_self, splitOn_joined hfs hcolon, splitOn_colon]

/-- A gap in the pieces is two colons in the text. -/
theorem text_of_gap (hhead : text.head? ≠ some colon)
    (hsplit : text.splitOn colon = fs ++ [] :: bs) (hbs : bs ≠ []) (hfront : groups fs = some front)
    (hback : looseGroups bs = some back) :
    text = joined fs ++ colon :: colon :: joined bs ∧ Behind (joined bs) back := by
  have hbsColon : ∀ p ∈ bs, colon ∉ p := by
    intro p hp
    have hmem : p ∈ text.splitOn colon := by
      rw [hsplit]
      exact List.mem_append_right _ (List.mem_cons_of_mem _ hp)
    exact (of_mem_splitOn hmem).1
  have hjoined : joined (text.splitOn colon) = text := List.intercalate_splitOn colon
  have hfs : fs ≠ [] := by
    rintro rfl
    apply hhead
    rw [← hjoined, hsplit, List.nil_append, joined_cons hbs]
    rfl
  have hgap := splitOn_gap hfs (colon_notMem_groups hfront) (joined bs)
  rw [splitOn_joined hbs hbsColon, ← hsplit] at hgap
  constructor
  · rw [← hjoined, ← hgap]
    exact List.intercalate_splitOn colon
  · rw [← looseGroups_splitOn, splitOn_joined hbs hbsColon]
    exact hback

theorem leadingColon_eq_some_iff {src : List Byte} : leadingColon src = some text ↔
    (src.head? ≠ some colon ∧ src = text) ∨ ∃ rest, src = colon :: colon :: rest ∧
      text = colon :: rest := by
  cases src with
  | nil => simp [leadingColon]
  | cons c src =>
    rw [leadingColon, List.head?_cons]
    generalize colon = k
    by_cases hc : c = k
    · subst hc
      rw [if_pos rfl]
      cases src with
      | nil => simp
      | cons c' src =>
        by_cases hc' : c' = c
        · subst hc'
          simp [eq_comm]
        · simp [hc']
    · simp [hc]

end Groups

/-- What `inetPton6` takes: groups for the whole address, or groups in front of two colons and
behind them. -/
theorem inetPton6_pieces {src address' : List Byte} : inetPton6 src = some address' ↔
    (Behind (cText src) address' ∧ address'.length = nsIn6addrsz) ∨
    ∃ fs front rest back, groups fs = some front ∧ Behind rest back ∧
      cText src = joined fs ++ colon :: colon :: rest ∧
      front.length + back.length ≤ nsIn6addrsz ∧ placed front back = address' := by
  rw [inetPton6_eq]
  constructor
  · intro h
    obtain ⟨text, htext, haddress⟩ := Option.bind_eq_some_iff.mp h
    rcases leadingColon_eq_some_iff.mp htext with ⟨hhead, rfl⟩ | ⟨rest, hsrc, rfl⟩
    · rw [address_eq_some_iff (List.splitOn_ne_nil _ _), gives_iff] at haddress
      rcases haddress with ⟨more, hmore, hlength, rfl⟩ |
        ⟨fs, bs, first, back, hbs, hfirst, hback, hroom, hsplit, rfl⟩
      · exact Or.inl ⟨looseGroups_splitOn.mp hmore, hlength⟩
      · obtain ⟨htext, hbehind⟩ := text_of_gap hhead hsplit hbs hfirst hback
        exact Or.inr ⟨fs, first, joined bs, back, hfirst, hbehind, htext, hroom, rfl⟩
    · rw [splitOn_colon, address_gap_eq_some_iff (List.splitOn_ne_nil _ _)] at haddress
      obtain ⟨back, hback, hroom, rfl⟩ := haddress
      exact Or.inr ⟨[], [], rest, back, rfl, looseGroups_splitOn.mp hback, hsrc, hroom, rfl⟩
  · rintro (⟨hbehind, hlength⟩ | ⟨fs, front, rest, back, hfront, hbehind, htext, hroom, rfl⟩)
    · rw [leadingColon_eq_some_iff.mpr (Or.inl ⟨hbehind.head, rfl⟩), Option.bind_some,
        address_eq_some_iff (List.splitOn_ne_nil _ _)]
      exact Gives.whole (looseGroups_splitOn.mpr hbehind) hlength
    · by_cases hfs : fs = []
      · subst hfs
        obtain rfl := Option.some.inj hfront
        rw [leadingColon_eq_some_iff.mpr (Or.inr ⟨rest, htext, rfl⟩), Option.bind_some,
          splitOn_colon, address_gap_eq_some_iff (List.splitOn_ne_nil _ _)]
        exact ⟨back, looseGroups_splitOn.mpr hbehind, hroom, rfl⟩
      · have hhead := head_joined_groups hfs hfront (colon :: colon :: rest)
        rw [htext, leadingColon_eq_some_iff.mpr (Or.inl ⟨hhead, rfl⟩), Option.bind_some,
          splitOn_gap hfs (colon_notMem_groups hfront), address_eq_some_iff (by simp)]
        exact Gives.gap (List.splitOn_ne_nil _ _) hfront (looseGroups_splitOn.mpr hbehind) hroom

/-- The texts beyond the standard form that the code takes. -/
inductive Lenient : List Byte → List Byte → Prop
  /-- A colon behind the last group. -/
  | fullColon {ps address} (h : groups ps = some address) (hlength : address.length = 16) :
      Lenient (joined ps ++ [colon]) address
  | shortColon {fs bs front back} (hfront : groups fs = some front) (hback : groups bs = some back)
      (hbs : bs ≠ []) (hroom : front.length + back.length < 16) :
      Lenient (joined fs ++ colon :: colon :: (joined bs ++ [colon])) (spread front back)
  /-- A gap for which there is no room. The groups behind it are lost. -/
  | crowded {fs rest front back} (hfront : groups fs = some front) (hback : Behind rest back)
      (hroom : front.length + back.length = 16) :
      Lenient (joined fs ++ colon :: colon :: rest)
        (front ++ List.replicate (16 - front.length) 0)

/-- `inetPton6` takes the texts of the standard form for the address that they stand for. Besides,
it takes a colon behind the last group, and a gap in an address that is full without it, of which
it keeps only the groups in front of the gap. It takes nothing else. -/
theorem inetPton6_eq_some_iff {src address : List Byte} : inetPton6 src = some address ↔
    Denotes (cText src) address ∨ Lenient (cText src) address := by
  rw [inetPton6_pieces]
  constructor
  · rintro (⟨hbehind, hlength⟩ | ⟨fs, front, rest, back, hfront, hbehind, htext, hroom, rfl⟩)
    · rcases hbehind with ⟨bs, hmixed, htext⟩ | ⟨bs, -, hgroups, htext⟩
      · exact Or.inl (htext ▸ Denotes.full hmixed hlength)
      · exact Or.inr (htext ▸ Lenient.fullColon hgroups hlength)
    · rw [htext]
      by_cases hfull : front.length + back.length = nsIn6addrsz
      · rw [placed, if_pos hfull]
        exact Or.inr (Lenient.crowded hfront hbehind hfull)
      · rw [placed, if_neg hfull]
        have hless : front.length + back.length < 16 := lt_of_le_of_ne hroom hfull
        rcases hbehind with ⟨bs, hmixed, rfl⟩ | ⟨bs, hbs, hgroups, rfl⟩
        · exact Or.inl (Denotes.short hfront hmixed hless)
        · exact Or.inr (Lenient.shortColon hfront hgroups hbs hless)
  · generalize cText src = text
    rintro (hdenotes | hlenient)
    · cases hdenotes with
      | full h hlength => exact Or.inl ⟨Or.inl ⟨_, h, rfl⟩, hlength⟩
      | short hfront hback hroom =>
        refine Or.inr ⟨_, _, _, _, hfront, Or.inl ⟨_, hback, rfl⟩, rfl, hroom.le, ?_⟩
        exact if_neg hroom.ne
    · cases hlenient with
      | fullColon h hlength =>
        refine Or.inl ⟨Or.inr ⟨_, ?_, h, rfl⟩, hlength⟩
        rintro rfl
        cases h
        cases hlength
      | shortColon hfront hback hbs hroom =>
        refine Or.inr ⟨_, _, _, _, hfront, Or.inr ⟨_, hbs, hback, rfl⟩, rfl, hroom.le, ?_⟩
        exact if_neg hroom.ne
      | crowded hfront hback hroom =>
        refine Or.inr ⟨_, _, _, _, hfront, hback, rfl, hroom.le, ?_⟩
        exact if_pos hroom

section Families

variable {text back front address q src : List Byte} {p : List Byte}

theorem length_placed (hroom : front.length + back.length ≤ nsIn6addrsz) :
    (placed front back).length = nsIn6addrsz := by
  unfold placed
  split_ifs with hfull
  · rw [List.length_append, List.length_replicate]
    omega
  · rw [spread, List.length_append, List.length_append, List.length_replicate]
    unfold nsIn6addrsz at hroom ⊢
    omega

theorem length_inetPton6 (h : inetPton6 src = some address) : address.length = nsIn6addrsz := by
  rcases inetPton6_pieces.mp h with ⟨-, hlength⟩ | ⟨fs, front, rest, back, -, -, -, hroom, rfl⟩
  · exact hlength
  · exact length_placed hroom

theorem length_mixedGroups_singleton (h : mixedGroups [p] = some back) : back.length ≤ 4 := by
  rcases mixedGroups_singleton.mp h with ⟨w, -, rfl⟩ | hquad
  · exact (by decide : 2 ≤ 4)
  · exact (dottedQuad_length hquad).le

/-- No text is taken for addresses of both families: the long ones need a colon. -/
theorem inetPton6_of_dottedQuad (h : dottedQuad (cText src) = some q) : inetPton6 src = none := by
  have hcolon := colon_notMem_dottedQuad h
  by_contra hsome
  obtain ⟨address, haddress⟩ := Option.ne_none_iff_exists'.mp hsome
  rcases inetPton6_pieces.mp haddress with ⟨hbehind, hlength⟩ |
    ⟨fs, front, rest, back, -, -, htext, -, -⟩
  · rcases hbehind with ⟨bs, hmixed, htext⟩ | ⟨bs, -, -, htext⟩
    · cases bs with
      | nil =>
        obtain rfl := Option.some.inj hmixed
        cases hlength
      | cons p bs =>
        cases bs with
        | nil =>
          have hshort := length_mixedGroups_singleton hmixed
          unfold nsIn6addrsz at hlength
          omega
        | cons p' bs =>
          rw [htext, joined_cons (List.cons_ne_nil _ _)] at hcolon
          exact hcolon (List.mem_append_right _ List.mem_cons_self)
    · rw [htext] at hcolon
      exact hcolon (List.mem_append_right _ List.mem_cons_self)
  · rw [htext] at hcolon
    exact hcolon (List.mem_append_right _ List.mem_cons_self)

end Families

section Written

variable {ws : List ℕ} {ps : List (List Byte)} {text address back : List Byte}

theorem mixedGroups_lastGroups (h : LastGroups ws ps) (hws : ∀ w ∈ ws, w ≤ 65535) :
    mixedGroups ps = some (addressBytes ws) := by
  cases h with
  | plain ws => exact mixedGroups_of_groups (groups_groupTexts hws)
  | quad ws high low =>
    induction ws with
    | nil => exact mixedGroups_singleton.mpr (Or.inr (dottedQuad_quadText rfl))
    | cons w ws ih =>
      rw [List.cons_append, List.forall_mem_cons] at hws
      rw [List.map_cons, List.cons_append, mixedGroups_cons_eq_some_iff (by simp)]
      exact ⟨w, _, group_groupText hws.1, ih hws.2, rfl⟩

theorem length_addressBytes (ws : List ℕ) : (addressBytes ws).length = 2 * ws.length := by
  induction ws with
  | nil => rfl
  | cons w ws ih =>
    have hcons : addressBytes (w :: ws) = groupBytes w ++ addressBytes ws := rfl
    rw [hcons, List.length_append, length_groupBytes, ih, List.length_cons, nsInt16sz]
    omega

theorem addressBytes_append (ws vs : List ℕ) :
    addressBytes (ws ++ vs) = addressBytes ws ++ addressBytes vs :=
  List.flatMap_append

theorem addressBytes_zeros (n : ℕ) :
    addressBytes (List.replicate n 0) = List.replicate (2 * n) 0 := by
  induction n with
  | zero => rfl
  | succ n ih =>
    rw [List.replicate_succ, Nat.mul_succ, List.replicate_succ, List.replicate_succ, ← ih]
    rfl

/-- What is written for the groups of an address denotes it. -/
theorem denotes_written (h : Written ws text) (hlength : ws.length = 8)
    (hws : ∀ w ∈ ws, w ≤ 65535) : Denotes text (addressBytes ws) := by
  cases h with
  | full h =>
    apply Denotes.full (mixedGroups_lastGroups h hws)
    rw [length_addressBytes, hlength]
  | short fs zeros h =>
    rename_i bs ps
    simp only [List.length_append, List.length_replicate] at hlength
    simp only [List.forall_mem_append] at hws
    have hspread : addressBytes (fs ++ List.replicate (zeros + 1) 0 ++ bs) =
        spread (addressBytes fs) (addressBytes bs) := by
      rw [addressBytes_append, addressBytes_append, addressBytes_zeros, spread,
        length_addressBytes, length_addressBytes]
      congr 3
      omega
    rw [hspread]
    apply Denotes.short (groups_groupTexts hws.1.1) (mixedGroups_lastGroups h hws.2)
    rw [length_addressBytes, length_addressBytes]
    omega

theorem zero_notMem_joined (h : ∀ p ∈ ps, 0 ∉ p) : 0 ∉ joined ps := by
  intro hmem
  rcases mem_intercalate hmem with heq | ⟨p, hp, hzero⟩
  · exact absurd heq (by decide)
  · exact h p hp hzero

theorem zero_notMem_denotes (h : Denotes text address) : 0 ∉ text := by
  have hmixed {ps : List (List Byte)} {back : List Byte} (h : mixedGroups ps = some back) :
      0 ∉ joined ps :=
    zero_notMem_joined (notMem_mixedGroups (by decide) (by decide) h)
  cases h with
  | full h hlength => exact hmixed h
  | short hfront hback hroom =>
    rw [List.mem_append, List.mem_cons, List.mem_cons, not_or, not_or, not_or]
    exact ⟨hmixed (mixedGroups_of_groups hfront), by decide, by decide, hmixed hback⟩

theorem cText_append_zero (h : 0 ∉ text) (behind : List Byte) :
    cText (text ++ 0 :: behind) = text := by
  have htext := cText_eq h
  unfold cText at htext ⊢
  rw [List.takeWhile_append_of_pos, List.takeWhile_cons_of_neg (by decide), List.append_nil]
  intro c hc
  exact decide_eq_true fun hzero => h (hzero ▸ hc)

/-- Addresses are read back from every way to write them in the standard form. -/
theorem inetPton6_written (h : Written ws text) (hlength : ws.length = 8)
    (hws : ∀ w ∈ ws, w ≤ 65535) (behind : List Byte) :
    inetPton6 (text ++ 0 :: behind) = some (addressBytes ws) := by
  have hdenotes := denotes_written h hlength hws
  rw [inetPton6_eq_some_iff, cText_append_zero (zero_notMem_denotes hdenotes)]
  exact Or.inl hdenotes

end Written

end ProjectMu.InetPton
