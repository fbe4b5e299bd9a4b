/-! Samples of one turn around the middle of the playing field. -/

namespace Tween.Fixture

/-- The two coordinates in millionths of a pixel and the rotation in billionths of a radian, one
sample every ten units of time. -/
def orbitSamples : List (Nat × Nat × Nat) :=
  [(420000000, 240000000, 0), (419950656, 243141076, 31415927), (419802673, 246279052, 62831853),
    (419556196, 249410831, 94247780), (419211470, 252533323, 125663706), (418768834, 255643447, 157079633),
    (418228725, 258738131, 188495559), (417591676, 261814324, 219911486),
    (416858316, 264868989, 251327412), (416029369, 267899111, 282743339),
    (415105652, 270901699, 314159265), (414088077, 273873792, 345575192),
    (412977649, 276812455, 376991118), (411775463, 279714789, 408407045),
    (410482705, 282577929, 439822972), (409100652, 285399050, 471238898),
    (407630668, 288175367, 502654825), (406074203, 290904142, 534070751),
    (404432793, 293582679, 565486678), (402708057, 296208338, 596902604),
    (400901699, 298778525, 628318531), (399015501, 301290705, 659734457),
    (397051324, 303742399, 691150384), (395011107, 306131187, 722566310),
    (392896863, 308454711, 753982237), (390710678, 310710678, 785398163),
    (388454711, 312896863, 816814090), (386131187, 315011107, 848230016),
    (383742399, 317051324, 879645943), (381290705, 319015501, 911061870),
    (378778525, 320901699, 942477796), (376208338, 322708057, 973893723),
    (373582679, 324432793, 1005309649), (370904142, 326074203, 1036725576),
    (368175367, 327630668, 1068141502), (365399050, 329100652, 1099557429),
    (362577929, 330482705, 1130973355), (359714789, 331775463, 1162389282),
    (356812455, 332977649, 1193805208), (353873792, 334088077, 1225221135),
    (350901699, 335105652, 1256637061), (347899111, 336029369, 1288052988),
    (344868989, 336858316, 1319468915), (341814324, 337591676, 1350884841),
    (338738131, 338228725, 1382300768), (335643447, 338768834, 1413716694),
    (332533323, 339211470, 1445132621), (329410831, 339556196, 1476548547),
    (326279052, 339802673, 1507964474), (323141076, 339950656, 1539380400),
    (320000000, 340000000, 1570796327), (316858924, 339950656, 1602212253),
    (313720948, 339802673, 1633628180), (310589169, 339556196, 1665044106),
    (307466677, 339211470, 1696460033), (304356553, 338768834, 1727875959),
    (301261869, 338228725, 1759291886), (298185676, 337591676, 1790707813),
    (295131011, 336858316, 1822123739), (292100889, 336029369, 1853539666),
    (289098301, 335105652, 1884955592), (286126208, 334088077, 1916371519),
    (283187545, 332977649, 1947787445), (280285211, 331775463, 1979203372),
    (277422071, 330482705, 2010619298), (274600950, 329100652, 2042035225),
    (271824633, 327630668, 2073451151), (269095858, 326074203, 2104867078),
    (266417321, 324432793, 2136283004), (263791662, 322708057, 2167698931),
    (261221475, 320901699, 2199114858), (258709295, 319015501, 2230530784),
    (256257601, 317051324, 2261946711), (253868813, 315011107, 2293362637),
    (251545289, 312896863, 2324778564), (249289322, 310710678, 2356194490),
    (247103137, 308454711, 2387610417), (244988893, 306131187, 2419026343),
    (242948676, 303742399, 2450442270), (240984499, 301290705, 2481858196),
    (239098301, 298778525, 2513274123), (237291943, 296208338, 2544690049),
    (235567207, 293582679, 2576105976), (233925797, 290904142, 2607521902),
    (232369332, 288175367, 2638937829), (230899348, 285399050, 2670353756),
    (229517295, 282577929, 2701769682), (228224537, 279714789, 2733185609),
    (227022351, 276812455, 2764601535), (225911923, 273873792, 2796017462),
    (224894348, 270901699, 2827433388), (223970631, 267899111, 2858849315),
    (223141684, 264868989, 2890265241), (222408324, 261814324, 2921681168),
    (221771275, 258738131, 2953097094), (221231166, 255643447, 2984513021),
    (220788530, 252533323, 3015928947), (220443804, 249410831, 3047344874),
    (220197327, 246279052, 3078760801), (220049344, 243141076, 3110176727),
    (220000000, 240000000, 3141592654), (220049344, 236858924, 3173008580),
    (220197327, 233720948, 3204424507), (220443804, 230589169, 3235840433),
    (220788530, 227466677, 3267256360), (221231166, 224356553, 3298672286),
    (221771275, 221261869, 3330088213), (222408324, 218185676, 3361504139),
    (223141684, 215131011, 3392920066), (223970631, 212100889, 3424335992),
    (224894348, 209098301, 3455751919), (225911923, 206126208, 3487167845),
    (227022351, 203187545, 3518583772), (228224537, 200285211, 3549999699),
    (229517295, 197422071, 3581415625), (230899348, 194600950, 3612831552),
    (232369332, 191824633, 3644247478), (233925797, 189095858, 3675663405),
    (235567207, 186417321, 3707079331), (237291943, 183791662, 3738495258),
    (239098301, 181221475, 3769911184), (240984499, 178709295, 3801327111),
    (242948676, 176257601, 3832743037), (244988893, 173868813, 3864158964),
    (247103137, 171545289, 3895574890), (249289322, 169289322, 3926990817),
    (251545289, 167103137, 3958406744), (253868813, 164988893, 3989822670),
    (256257601, 162948676, 4021238597), (258709295, 160984499, 4052654523),
    (261221475, 159098301, 4084070450), (263791662, 157291943, 4115486376),
    (266417321, 155567207, 4146902303), (269095858, 153925797, 4178318229),
    (271824633, 152369332, 4209734156), (274600950, 150899348, 4241150082),
    (277422071, 149517295, 4272566009), (280285211, 148224537, 4303981935),
    (283187545, 147022351, 4335397862), (286126208, 145911923, 4366813788),
    (289098301, 144894348, 4398229715), (292100889, 143970631, 4429645642),
    (295131011, 143141684, 4461061568), (298185676, 142408324, 4492477495),
    (301261869, 141771275, 4523893421), (304356553, 141231166, 4555309348),
    (307466677, 140788530, 4586725274), (310589169, 140443804, 4618141201),
    (313720948, 140197327, 4649557127), (316858924, 140049344, 4680973054),
    (320000000, 140000000, 4712388980), (323141076, 140049344, 4743804907),
    (326279052, 140197327, 4775220833), (329410831, 140443804, 4806636760),
    (332533323, 140788530, 4838052687), (335643447, 141231166, 4869468613),
    (338738131, 141771275, 4900884540), (341814324, 142408324, 4932300466),
    (344868989, 143141684, 4963716393), (347899111, 143970631, 4995132319),
    (350901699, 144894348, 5026548246), (353873792, 145911923, 5057964172),
    (356812455, 147022351, 5089380099), (359714789, 148224537, 5120796025),
    (362577929, 149517295, 5152211952), (365399050, 150899348, 5183627878),
    (368175367, 152369332, 5215043805), (370904142, 153925797, 5246459731),
    (373582679, 155567207, 5277875658), (376208338, 157291943, 5309291585),
    (378778525, 159098301, 5340707511), (381290705, 160984499, 5372123438),
    (383742399, 162948676, 5403539364), (386131187, 164988893, 5434955291),
    (388454711, 167103137, 5466371217), (390710678, 169289322, 5497787144),
    (392896863, 171545289, 5529203070), (395011107, 173868813, 5560618997),
    (397051324, 176257601, 5592034923), (399015501, 178709295, 5623450850),
    (400901699, 181221475, 5654866776), (402708057, 183791662, 5686282703),
    (404432793, 186417321, 5717698630), (406074203, 189095858, 5749114556),
    (407630668, 191824633, 5780530483), (409100652, 194600950, 5811946409),
    (410482705, 197422071, 5843362336), (411775463, 200285211, 5874778262),
    (412977649, 203187545, 5906194189), (414088077, 206126208, 5937610115),
    (415105652, 209098301, 5969026042), (416029369, 212100889, 6000441968),
    (416858316, 215131011, 6031857895), (417591676, 218185676, 6063273821),
    (418228725, 221261869, 6094689748), (418768834, 224356553, 6126105675),
    (419211470, 227466677, 6157521601), (419556196, 230589169, 6188937528),
    (419802673, 233720948, 6220353454), (419950656, 236858924, 6251769381),
    (420000000, 240000000, 6283185307)]

end Tween.Fixture
