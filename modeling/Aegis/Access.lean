import Aegis.Loads

namespace Aegis

inductive Role where
  | viewer
  | engineer
  | approver
  | admin
  deriving DecidableEq, Repr

def Role.value : Role → String
  | .viewer => "viewer"
  | .engineer => "engineer"
  | .approver => "approver"
  | .admin => "admin"

/-- `Role(value)` -/
def parseRole (value : String) : Option Role :=
  [.viewer, .engineer, .approver, .admin].find? fun role => role.value = value

inductive Permission where
  | createIncident
  | readIncident
  | transitionIncident
  | retrieveKnowledge
  | viewInvestigation
  | reviewRca
  | controlInvestigation
  | addEvidence
  | managePolicy
  deriving DecidableEq, Repr

/-- `_INVESTIGATION_WRITE` -/
def investigationWrite : List Permission :=
  [.viewInvestigation, .reviewRca, .controlInvestigation, .addEvidence]

/-- `ROLE_PERMISSIONS` -/
def rolePermissions : Role → List Permission
  | .viewer => [.readIncident, .retrieveKnowledge, .viewInvestigation]
  | .engineer => [.createIncident, .readIncident, .transitionIncident, .retrieveKnowledge] ++
      investigationWrite
  | .approver => [.createIncident, .readIncident, .transitionIncident, .retrieveKnowledge] ++
      investigationWrite
  | .admin => [.createIncident, .readIncident, .transitionIncident, .retrieveKnowledge,
      .managePolicy] ++ investigationWrite

def hasPermission (role : Role) (permission : Permission) : Bool :=
  permission ∈ rolePermissions role

/-- Why a caller is turned away: no secret is configured (503), it is not known (401), or its role
does not allow the call (403). -/
inductive AccessFault where
  | notConfigured (text : String)
  | unauthenticated (text : String)
  | forbidden (text : String)
  deriving DecidableEq

/-- What `jwt.decode` raises: `ExpiredSignatureError`, or any other `InvalidTokenError`. -/
inductive JwtFault where
  | expired
  | invalid
  deriving DecidableEq

/-- `jwt.encode`, and `jwt.decode` at a moment, with HS256 and the issuer of the platform. -/
structure JwtModule where
  encode : Fields → String → String
  decode : String → String → Instant → Except JwtFault Fields

structure TokenPayload where
  subject : String
  role : Role
  deriving DecidableEq

/-- `_require_secret` -/
def requireSecret (jwtSecret : String) : Except AccessFault String :=
  if strip jwtSecret = "" then
    .error (.notConfigured "JWT is not configured. Set AEGIS_JWT_SECRET (never hardcode secrets).")
  else .ok (strip jwtSecret)

/-- The claims of a token that is issued at a moment for so many seconds. -/
def tokenClaims (subject : String) (role : Role) (lifetime : Int) (now : Instant) : Fields :=
  [("sub", .str subject), ("role", .str role.value), ("iat", .int (now / 1000000)),
    ("exp", .int ((now + lifetime * 1000000) / 1000000)), ("iss", .str "aegis")]

/-- PyJWT on the claims of `create_access_token`: their moments are seconds, and a token is good
until the second in which it expires. -/
structure JwtModule.Lawful (jwt : JwtModule) : Prop where
  written : ∀ {subject : String} {role : Role} {lifetime : Int} {issued : Instant}
    {secret : String}, secret ≠ "" →
    jwt.encode (tokenClaims subject role lifetime issued) secret ≠ ""
  decodes : ∀ {subject : String} {role : Role} {lifetime : Int} {issued now : Instant}
    {secret : String}, secret ≠ "" → issued / 1000000 * 1000000 ≤ now →
    jwt.decode (jwt.encode (tokenClaims subject role lifetime issued) secret) secret now =
      if now < (issued + lifetime * 1000000) / 1000000 * 1000000 then
        .ok (tokenClaims subject role lifetime issued)
      else .error .expired

/-- `create_access_token` -/
def createAccessToken (jwt : JwtModule) (jwtSecret subject : String) (role : Role) (lifetime : Int)
    (now : Instant) : Except AccessFault String :=
  (requireSecret jwtSecret).map (jwt.encode (tokenClaims subject role lifetime now))

/-- The claims that `decode_access_token` reads. -/
def tokenPayload (payload : Fields) : Except AccessFault TokenPayload :=
  match payload.get "sub" with
  | .str subject =>
    if strip subject = "" then .error (.unauthenticated "Access token is missing subject.")
    else
      match payload.get "role" with
      | .str value =>
        match parseRole value with
        | some role => .ok ⟨strip subject, role⟩
        | none => .error (.unauthenticated "Access token has an invalid role.")
      | _ => .error (.unauthenticated "Access token has an invalid role.")
  | _ => .error (.unauthenticated "Access token is missing subject.")

/-- The end of `decode_access_token`, on what `jwt.decode` gave. -/
def decodedPayload : Except JwtFault Fields → Except AccessFault TokenPayload
  | .error .expired => .error (.unauthenticated "Access token has expired.")
  | .error .invalid => .error (.unauthenticated "Access token is invalid.")
  | .ok payload => tokenPayload payload

/-- `decode_access_token` at a moment. -/
def decodeAccessToken (jwt : JwtModule) (jwtSecret token : String) (now : Instant) :
    Except AccessFault TokenPayload :=
  (requireSecret jwtSecret).bind fun secret => decodedPayload (jwt.decode token secret now)

/-- The scheme and the credentials of an `Authorization` header. -/
structure Credentials where
  scheme : String
  credentials : String

/-- `get_current_user` -/
def getCurrentUser (lower : String → String) (jwt : JwtModule) (jwtSecret : String)
    (header : Option Credentials) (now : Instant) : Except AccessFault TokenPayload :=
  match header with
  | none => .error (.unauthenticated "Missing or invalid Authorization bearer token.")
  | some ⟨scheme, credentials⟩ =>
    if lower scheme ≠ "bearer" ∨ credentials = "" then
      .error (.unauthenticated "Missing or invalid Authorization bearer token.")
    else decodeAccessToken jwt jwtSecret credentials now

/-- `require_permission`; the routes without one ask for a known caller only. -/
def requirePermission (permission : Option Permission) (user : TokenPayload) :
    Except AccessFault TokenPayload :=
  if permission.all (hasPermission user.role) then .ok user
  else .error (.forbidden "Insufficient role for this operation.")

/-- What a route with a permission makes of the header of a request. -/
def authorize (lower : String → String) (jwt : JwtModule) (jwtSecret : String)
    (permission : Option Permission) (header : Option Credentials) (now : Instant) :
    Except AccessFault TokenPayload :=
  (getCurrentUser lower jwt jwtSecret header now).bind (requirePermission permission)

section Tokens

variable {jwt : JwtModule} {jwtSecret subject token : String} {role : Role} {lifetime : Int}
  {issued now : Instant} {user caller : TokenPayload} {permission : Option Permission}

theorem parseRole_value (role : Role) : parseRole role.value = some role := by
  cases role <;> decide

theorem tokenPayload_claims : tokenPayload (tokenClaims subject role lifetime issued) =
    if strip subject = "" then .error (.unauthenticated "Access token is missing subject.")
    else .ok ⟨strip subject, role⟩ := by
  have hsub : (tokenClaims subject role lifetime issued).get "sub" = .str subject := rfl
  have hrole : (tokenClaims subject role lifetime issued).get "role" = .str role.value := rfl
  unfold tokenPayload
  rw [hsub]
  dsimp only
  rw [hrole]
  dsimp only
  rw [parseRole_value]

theorem tokenClaims_keys :
    ((tokenClaims subject role lifetime issued).map Prod.fst).Nodup := by
  change ["sub", "role", "iat", "exp", "iss"].Nodup
  decide

theorem tokenPayload_ok {payload : Fields} (h : tokenPayload payload = .ok user) :
    strip user.subject = user.subject ∧ user.subject ≠ "" := by
  unfold tokenPayload at h
  split at h
  next raw _ =>
    split at h
    · cases h
    next hne =>
      split at h
      · split at h
        · cases h
          exact ⟨strip_strip raw, hne⟩
        · cases h
      · cases h
  · cases h

/-- The caller that a token names has a subject without spaces at its ends. -/
theorem decodeAccessToken_ok (h : decodeAccessToken jwt jwtSecret token now = .ok user) :
    strip user.subject = user.subject ∧ user.subject ≠ "" := by
  obtain ⟨secret, _, hdecoded⟩ := bind_ok h
  cases hread : jwt.decode token secret now with
  | error fault =>
    rw [hread] at hdecoded
    cases fault <;> cases hdecoded
  | ok payload =>
    rw [hread] at hdecoded
    exact tokenPayload_ok hdecoded

theorem getCurrentUser_ok {lower : String → String} {header : Option Credentials}
    (h : getCurrentUser lower jwt jwtSecret header now = .ok user) :
    ∃ given, header = some given ∧ given.credentials ≠ "" ∧
      decodeAccessToken jwt jwtSecret given.credentials now = .ok user := by
  unfold getCurrentUser at h
  split at h
  · cases h
  next scheme credentials =>
    split at h
    · cases h
    next hgood =>
      exact ⟨_, rfl, fun hempty => hgood (.inr hempty), h⟩

theorem requirePermission_ok (h : requirePermission permission user = .ok caller) :
    caller = user ∧ ∀ p, permission = some p → hasPermission user.role p = true := by
  unfold requirePermission at h
  split at h
  next hall =>
    cases h
    refine ⟨rfl, ?_⟩
    rintro p rfl
    exact hall
  · cases h

theorem authorize_ok {lower : String → String} {header : Option Credentials}
    (h : authorize lower jwt jwtSecret permission header now = .ok caller) :
    getCurrentUser lower jwt jwtSecret header now = .ok caller ∧
      ∀ p, permission = some p → hasPermission caller.role p = true := by
  obtain ⟨user, huser, hrequired⟩ := bind_ok h
  obtain ⟨rfl, hallowed⟩ := requirePermission_ok hrequired
  exact ⟨huser, hallowed⟩

end Tokens

/-- The secret and the claims of a token in the clear. -/
def openToken (token : String) : Option (String × Fields) :=
  match loads (fun _ => none) token with
  | some (.obj [(_, .str secret), (_, .obj claims)]) => some (secret, claims)
  | _ => none

/-- The check of `exp`. -/
def unexpired (claims : Fields) (now : Instant) : Except JwtFault Fields :=
  match Fields.get claims "exp" with
  | .int exp => if now < exp * 1000000 then .ok claims else .error .expired
  | _ => .error .invalid

/-- Tokens in the clear. -/
def jsonJwt : JwtModule where
  encode fields secret := (Value.obj [("secret", .str secret), ("claims", .obj fields)]).compact
  decode token secret now :=
    match openToken token with
    | none => .error .invalid
    | some (signer, claims) => if signer = secret then unexpired claims now else .error .invalid

theorem openToken_encode {subject : String} {role : Role} {lifetime : Int} {issued : Instant}
    (secret : String) :
    openToken (jsonJwt.encode (tokenClaims subject role lifetime issued) secret) =
      some (secret, tokenClaims subject role lifetime issued) := by
  have distinct : ([("secret", Value.str secret),
      ("claims", .obj (tokenClaims subject role lifetime issued))].map Prod.fst).Nodup := by
    change ["secret", "claims"].Nodup
    decide
  have hread : loads (fun _ => none)
      (jsonJwt.encode (tokenClaims subject role lifetime issued) secret) =
      some (.obj [("secret", .str secret),
        ("claims", .obj (tokenClaims subject role lifetime issued))]) :=
    loads_write compact_writer _ ⟨distinct, trivial,
      ⟨tokenClaims_keys, trivial, trivial, trivial, trivial, trivial, trivial⟩, trivial⟩
  unfold openToken
  rw [hread]

theorem jsonJwt_lawful : jsonJwt.Lawful := by
  refine ⟨fun {subject role lifetime issued secret} _ h => ?_,
    fun {subject role lifetime issued now secret} _ _ => ?_⟩
  · have hempty := congrArg String.length h
    simp [jsonJwt, Value.compact] at hempty
  · have hopen := @openToken_encode subject role lifetime issued secret
    unfold jsonJwt at hopen ⊢
    dsimp only at hopen ⊢
    rw [hopen]
    dsimp only
    rw [if_pos rfl]
    rfl

section Issued

variable {jwt : JwtModule} {jwtSecret subject : String} {role : Role} {lifetime : Int}
  {issued now : Instant} {permission : Option Permission}

/-- A token opens the routes of its role, for its subject, until it expires, and is refused as
expired after that; without a subject it opens none. -/
theorem issued_token_grants {lower : String → String} {scheme : String} (lawful : jwt.Lawful)
    (bearer : lower scheme = "bearer") (configured : strip jwtSecret ≠ "")
    (later : issued ≤ now) :
    ∃ token, createAccessToken jwt jwtSecret subject role lifetime issued = .ok token ∧
      authorize lower jwt jwtSecret permission (some ⟨scheme, token⟩) now =
        if issued / 1000000 * 1000000 + lifetime * 1000000 ≤ now then
          .error (.unauthenticated "Access token has expired.")
        else if strip subject = "" then
          .error (.unauthenticated "Access token is missing subject.")
        else if ∀ p, permission = some p → p ∈ rolePermissions role then .ok ⟨strip subject, role⟩
        else .error (.forbidden "Insufficient role for this operation.") := by
  have hsecret : requireSecret jwtSecret = .ok (strip jwtSecret) := if_neg configured
  have hexp : (issued + lifetime * 1000000) / 1000000 * 1000000 =
      issued / 1000000 * 1000000 + lifetime * 1000000 := by
    rw [Int.add_mul_ediv_right _ _ (by decide), add_mul]
  have hiat : issued / 1000000 * 1000000 ≤ now :=
    (Int.ediv_mul_le issued (by decide)).trans later
  have hdecode := @lawful.decodes subject role lifetime issued now (strip jwtSecret) configured hiat
  rw [hexp] at hdecode
  refine ⟨jwt.encode (tokenClaims subject role lifetime issued) (strip jwtSecret),
    by rw [createAccessToken, hsecret]; rfl, ?_⟩
  have huser : getCurrentUser lower jwt jwtSecret (some ⟨scheme,
      jwt.encode (tokenClaims subject role lifetime issued) (strip jwtSecret)⟩) now =
      decodedPayload (jwt.decode (jwt.encode (tokenClaims subject role lifetime issued)
        (strip jwtSecret)) (strip jwtSecret) now) := by
    unfold getCurrentUser
    dsimp only
    rw [if_neg (not_or.mpr ⟨not_not.mpr bearer, lawful.written configured⟩), decodeAccessToken,
      hsecret]
    rfl
  unfold authorize
  rw [huser, hdecode]
  by_cases hexpired : issued / 1000000 * 1000000 + lifetime * 1000000 ≤ now
  · rw [if_pos hexpired, if_neg (not_lt.mpr hexpired)]
    rfl
  · rw [if_neg hexpired, if_pos (not_le.mp hexpired)]
    change (tokenPayload (tokenClaims subject role lifetime issued)).bind _ = _
    rw [tokenPayload_claims]
    split
    · rfl
    change (if permission.all (hasPermission role) = true then _ else _) = _
    by_cases hallowed : ∀ p, permission = some p → p ∈ rolePermissions role
    · have hall : permission.all (hasPermission role) = true := by
        cases permission with
        | none => rfl
        | some p => exact decide_eq_true (hallowed p rfl)
      rw [if_pos hall, if_pos hallowed]
    · have hall : ¬permission.all (hasPermission role) = true := fun hall =>
        hallowed fun p hp => of_decide_eq_true (by rw [hp] at hall; exact hall)
      rw [if_neg hall, if_neg hallowed]

/-- A token of an engineer, half an hour before it expires. -/
theorem engineer_token_grants : ∃ token,
    createAccessToken jsonJwt " s3cret " " ada" .engineer 3600 0 = .ok token ∧
      authorize (fun text => text) jsonJwt " s3cret " (some .managePolicy)
          (some ⟨"bearer", token⟩) 1800000000 =
        if (0 : Instant) / 1000000 * 1000000 + 3600 * 1000000 ≤ 1800000000 then
          .error (.unauthenticated "Access token has expired.")
        else if strip " ada" = "" then
          .error (.unauthenticated "Access token is missing subject.")
        else if ∀ p, some Permission.managePolicy = some p → p ∈ rolePermissions .engineer then
          .ok ⟨strip " ada", .engineer⟩
        else .error (.forbidden "Insufficient role for this operation.") :=
  issued_token_grants jsonJwt_lawful rfl (by decide) (by decide)

end Issued

end Aegis
